import OpenConditions.Fusion.Selection

set_option relaxedAutoImplicit false
set_option autoImplicit false

/-!
# What a fused row grants

A fused row grants no more than any of its contributors, takes on the duties of all of them, and
credits each of them.

## Main definitions

* `Restricts` — a row takes on the restrictions of what it is made of.

## Main results

* `mostRestrictiveRights_grant_le`, `mostRestrictiveRights_attribution` — the rights of several
  sources grant what each of them grants, and ask what any of them asks.
* `fusedDraft_restricts` — the draft of a fused row takes on the restrictions of its contributors.
* `fusedObservation_restricts` — so does the row, which is that of every order of the candidates
  whose ids are told apart.
-/

namespace OpenConditions.Fusion

open OpenConditions.Storage

/-! ## Folds that choose -/

/-- Folding a choice stays below everything it chooses from. -/
theorem foldl_below {α : Type*} (below : α → α → Prop) {choose : α → α → α}
    (hrefl : ∀ a, below a a) (htrans : ∀ a b c, below a b → below b c → below a c)
    (hleft : ∀ a b, below (choose a b) a) (hright : ∀ a b, below (choose a b) b) (l : List α) :
    ∀ a, ∀ b ∈ a :: l, below (l.foldl choose a) b := by
  induction l with
  | nil =>
    intro a b hb
    rw [List.mem_singleton.mp hb]
    exact hrefl a
  | cons c l ih =>
    intro a b hb
    have hchoice := ih (choose a c) (choose a c) (List.mem_cons_self ..)
    rcases List.mem_cons.mp hb with rfl | hb
    · exact htrans _ _ _ hchoice (hleft _ _)
    · rcases List.mem_cons.mp hb with rfl | hb
      · exact htrans _ _ _ hchoice (hright _ _)
      · exact ih _ b (List.mem_cons_of_mem _ hb)

/-- The least grant is no more than any. -/
theorem leastGrant_le {gs : List GrantState} {g : GrantState} (hg : g ∈ gs) :
    (leastGrant gs).grantOrder ≤ g.grantOrder := by
  cases gs with
  | nil => cases hg
  | cons g' gs =>
    refine foldl_below (fun a b => a.grantOrder ≤ b.grantOrder) (fun _ => le_rfl)
      (fun _ _ _ => le_trans) (fun a b => ?_) (fun a b => ?_) gs g' g hg <;> split_ifs <;> omega

/-- The most granted is no less than any. -/
theorem le_mostGrant {gs : List GrantState} {g : GrantState} (hg : g ∈ gs) :
    g.grantOrder ≤ (mostGrant gs).grantOrder := by
  cases gs with
  | nil => cases hg
  | cons g' gs =>
    refine foldl_below (fun a b => b.grantOrder ≤ a.grantOrder) (fun _ => le_rfl)
      (fun _ _ _ hab hbc => hbc.trans hab) (fun a b => ?_) (fun a b => ?_) gs g' g hg <;>
        split_ifs <;> omega

/-- Some instants have an earliest one, no later than any. -/
theorem earliest_le {ts : List Instant} {t : Instant} (ht : t ∈ ts) :
    ∃ e, earliest ts = some e ∧ e ≤ t := by
  cases ts with
  | nil => cases ht
  | cons t' ts =>
    exact ⟨_, rfl, foldl_below (· ≤ ·) le_refl (fun _ _ _ => le_trans) min_le_left
      min_le_right ts t' t ht⟩

section Rights

variable {J : Type} {attributions : List (Attribution J)} {a : Attribution J}

/-! ## The rights of several sources -/

/-- The rights of several sources are those of the first that declares any, with every grant the
most restrictive one; there are none where none declares any. -/
theorem mostRestrictiveRights_cases (attributions : List (Attribution J)) :
    (mostRestrictiveRights attributions = none ∧ ∀ a ∈ attributions, a.rights = none) ∨
      ∃ rights, mostRestrictiveRights attributions = some rights ∧
        (∀ permission, rights.grant permission =
          leastGrant ((attributions.map Attribution.rights).map (declaredGrant permission))) ∧
        rights.attributionRequired =
          mostGrant ((attributions.map Attribution.rights).map declaredAttribution) := by
  unfold mostRestrictiveRights
  dsimp only
  cases hfirst : (attributions.map Attribution.rights).find? Option.isSome with
  | none =>
    rw [List.find?_eq_none] at hfirst
    refine Or.inl ⟨rfl, fun a ha => ?_⟩
    simpa using hfirst a.rights (List.mem_map_of_mem ha)
  | some declared =>
    cases declared with
    | none => simpa using List.find?_some hfirst
    | some first =>
      refine Or.inr ⟨_, rfl, fun permission => ?_, rfl⟩
      cases permission <;> rfl

/-- **The rights of several sources grant no more than any of them.** -/
theorem mostRestrictiveRights_grant_le (ha : a ∈ attributions) (permission : Permission) :
    (declaredGrant permission (mostRestrictiveRights attributions)).grantOrder ≤
      (declaredGrant permission a.rights).grantOrder := by
  rcases mostRestrictiveRights_cases attributions with ⟨hnone, hall⟩ | ⟨rights, hsome, hgrant, -⟩
  · rw [hnone, hall a ha]
  · have hgranted : declaredGrant permission (some rights) = rights.grant permission := rfl
    rw [hsome, hgranted, hgrant]
    exact leastGrant_le (List.mem_map_of_mem (List.mem_map_of_mem ha))

/-- **The rights of several sources ask for attribution where any of them does.** -/
theorem mostRestrictiveRights_attribution (ha : a ∈ attributions)
    (hyes : declaredAttribution a.rights = .yes) :
    declaredAttribution (mostRestrictiveRights attributions) = .yes := by
  rcases mostRestrictiveRights_cases attributions with ⟨-, hall⟩ | ⟨rights, hsome, -, hasked⟩
  · rw [hall a ha] at hyes
    cases hyes
  · have hduty : declaredAttribution (some rights) = rights.attributionRequired := rfl
    have hle := le_mostGrant (List.mem_map_of_mem (f := declaredAttribution)
      (List.mem_map_of_mem (f := Attribution.rights) ha))
    rw [hyes] at hle
    rw [hsome, hduty, hasked]
    cases hmost : mostGrant ((attributions.map Attribution.rights).map declaredAttribution) <;>
      simp_all [GrantState.grantOrder]

end Rights

section Draft

variable {J : Type}

/-! ## The fused row -/

/-- A row takes on the restrictions of what it is made of, and credits it. -/
structure Restricts (draft : FusedDraft J) (contributors : List (FusableObservation J)) : Prop where
  /-- No permission goes beyond what each contributor grants. -/
  grants : ∀ o ∈ contributors, ∀ permission,
    (declaredGrant permission draft.attribution.rights).grantOrder ≤
      (declaredGrant permission o.provenance.attribution.rights).grantOrder
  /-- Attribution is required where any contributor requires it. -/
  attribution : ∀ o ∈ contributors, declaredAttribution o.provenance.attribution.rights = .yes →
    declaredAttribution draft.attribution.rights = .yes
  /-- The row is on demand where any contributor is. -/
  onDemand : ∀ o ∈ contributors, isOnDemand o = true → draft.accessMode = "on_demand"
  /-- It expires no later than any on-demand contributor that states an expiry. -/
  expires : ∀ o ∈ contributors, isOnDemand o = true → ∀ t ∈ o.expiresAt,
    ∃ e, draft.expiresAt = some e ∧ e ≤ t.instant
  /-- Each contributor's credit and upstream terms are listed once. -/
  credits : draft.mergedSources = contributors.map mergedSourceOf

variable {f : Fusion J} {at_ : FusedAt J}

/-- **The draft of a fused row takes on the restrictions of its contributors.** -/
theorem fusedDraft_restricts :
    Restricts (fusedDraft f at_) (f.contributors.map FusionCandidate.observation) where
  grants o ho permission := by
    exact mostRestrictiveRights_grant_le
      (List.mem_map_of_mem (f := fun o => o.provenance.attribution) ho) permission
  attribution o ho hyes :=
    mostRestrictiveRights_attribution
      (List.mem_map_of_mem (f := fun o => o.provenance.attribution) ho) hyes
  onDemand o ho hdemand := by
    have hmem : o ∈ (f.contributors.map FusionCandidate.observation).filter isOnDemand :=
      List.mem_filter.mpr ⟨ho, hdemand⟩
    exact if_pos (List.length_pos_of_mem hmem)
  expires o ho hdemand t ht := by
    have hmem : o ∈ (f.contributors.map FusionCandidate.observation).filter isOnDemand :=
      List.mem_filter.mpr ⟨ho, hdemand⟩
    refine earliest_le (List.mem_filterMap.mpr ⟨o, hmem, ?_⟩)
    rw [Option.mem_def.mp ht]
    rfl
  credits := rfl

/-- A fused row is the draft with an id. -/
theorem fusedObservation_eq {model : DraftModel J} {draft : FusedDraft J}
    (h : fusedObservation model f at_ = .ok (.ok draft)) :
    ∃ id recordId, draft = { fusedDraft f at_ with id := id, recordId := recordId } := by
  unfold fusedObservation at h
  dsimp only at h
  cases hlocal : model.observationLocalId (fusedDraft f at_) with
  | error e =>
    rw [hlocal] at h
    cases h
  | ok localId =>
    rw [hlocal] at h
    exact ⟨_, _, model.validateDraft_value _ _ (Except.ok.inj h)⟩

/-- An id changes no restriction. -/
theorem Restricts.withId {draft : FusedDraft J} {contributors : List (FusableObservation J)}
    (h : Restricts draft contributors) (id recordId : String) :
    Restricts { draft with id := id, recordId := recordId } contributors :=
  ⟨h.grants, h.attribution, h.onDemand, h.expires, h.credits⟩

variable {env : FusionEnv J} {property : String} {candidates : List (FusionCandidate J)}
  {now : Instant} {entry : PropertyEntry}

/-- **A fused row never grants more than any of its contributors.**  It takes on the duties of all
of them and credits each once; where the collation tells the ids of the candidates apart, it is the
same row for every order of them. -/
theorem fusedObservation_restricts {model : DraftModel J} {draft : FusedDraft J}
    (hfuse : fuse env property candidates now = .ok (some f))
    (hdraft : fusedObservation model f at_ = .ok (.ok draft)) :
    Restricts draft (f.contributors.map FusionCandidate.observation) ∧
      (Sorting.OrdersBy env.localeLe →
        Sorting.Separates (fun a b => env.localeLe a.observation.id b.observation.id) candidates →
          ∀ candidates', candidates.Perm candidates' →
            fuse env property candidates' now = .ok (some f)) := by
  constructor
  · obtain ⟨id, recordId, rfl⟩ := fusedObservation_eq hdraft
    exact fusedDraft_restricts.withId id recordId
  · intro hlocale hids candidates' hperm
    cases hentry : env.property property with
    | none => simp [fuse, hentry] at hfuse
    | some entry => exact fuse_perm hentry hlocale hids hperm hfuse

end Draft

/-! ## Samples -/

/-- Rights that say one thing of every permission. -/
def sampleRights (grant : GrantState) : RoutingRights :=
  ⟨grant, grant, grant, .yes, grant, none, none, none⟩

/-- A fresh reading of an on-demand feed, with rights. -/
def sampleGranted (id result : String) (rights : Option RoutingRights) : FusionCandidate String :=
  let c := sampleReading id "feed" result .epoch (some .authoritative) none false
  let provenance : FusableProvenance String :=
    ⟨"feed", "feed", "on_demand", ⟨"", rights⟩, none, "public"⟩
  ⟨{ c.observation with provenance := provenance }, c.sourceTier, c.evidence, c.stale⟩

/-- A local id for every draft, and no draft refused. -/
def sampleModel : DraftModel String where
  observationLocalId _ := .ok "road"
  validateDraft draft := .ok draft
  validateDraft_value _ _ h := (Except.ok.inj h).symm

/-- Where the fused row is written. -/
def sampleAt : FusedAt String :=
  ⟨.feature "road" none, "", "here", ⟨"", ⟨85, by decide⟩⟩, none⟩

/-- Two feeds that agree, one of which declares no rights. -/
theorem fusedObservation_restricts_sample :
    ∃ draft, fusedObservation sampleModel
        ⟨sampleGranted "a" "open" (some (sampleRights .yes)),
          [sampleGranted "a" "open" (some (sampleRights .yes)), sampleGranted "b" "open" none],
          false⟩ sampleAt = .ok (.ok draft) ∧
      Restricts draft [(sampleGranted "a" "open" (some (sampleRights .yes))).observation,
        (sampleGranted "b" "open" none).observation] := by
  have hfuse : fuse sampleEnv "road_state"
      [sampleGranted "b" "open" none, sampleGranted "a" "open" (some (sampleRights .yes))]
      ⟨85, by decide⟩ = .ok (some
        ⟨sampleGranted "a" "open" (some (sampleRights .yes)),
          [sampleGranted "a" "open" (some (sampleRights .yes)), sampleGranted "b" "open" none],
          false⟩) := by rfl
  exact ⟨_, rfl, (@fusedObservation_restricts _ _ sampleAt _ _ _ _ sampleModel _ hfuse rfl).1⟩

/-- Of two readings of one id the first that is given wins, with its rights. -/
theorem fusedObservation_depends_on_order :
    let granted := sampleGranted "a" "open" (some (sampleRights .yes))
    let withheld := sampleGranted "a" "closed" (some (sampleRights .no))
    fuse sampleEnv "road_state" [granted, withheld] ⟨85, by decide⟩ =
        .ok (some ⟨granted, [granted], false⟩) ∧
      fuse sampleEnv "road_state" [withheld, granted] ⟨85, by decide⟩ =
        .ok (some ⟨withheld, [withheld], false⟩) ∧
      ∃ draft draft', fusedObservation sampleModel ⟨granted, [granted], false⟩ sampleAt =
          .ok (.ok draft) ∧
        fusedObservation sampleModel ⟨withheld, [withheld], false⟩ sampleAt = .ok (.ok draft') ∧
        draft.attribution.rights = some (sampleRights .yes) ∧
        draft'.attribution.rights = some (sampleRights .no) := by
  refine ⟨by rfl, by rfl, _, _, rfl, rfl, by rfl, by rfl⟩

end OpenConditions.Fusion

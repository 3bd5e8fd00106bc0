import OpenConditions.Linking.Components

set_option relaxedAutoImplicit false
set_option autoImplicit false

/-!
# What the component set is

Every component of every member is put into exactly one component of the set, no two of a member
into one, the survivor's keep their keys, and parents stand for parents.  The keys of the others are
made of the source's id, and where that is taken of the feature's local id; that one can be taken
too, and then two components of the set have one key.

## Main definitions

* `WellFormedSet` — what a component set should be.
* `KeysFree` — no component joins under a key that is taken.

## Main results

* `Placed.placeComponent` — what one component leaves.
* `wellFormedSet_iff` — the set is what it should be exactly when the keys are free.
-/

namespace OpenConditions.Linking

open Sorting

section Spec

variable {V : Type}

/-- The components of a feature as the schema has them: their keys are unique, and a parent is a
component of the top level. -/
structure SchemaComponents (components : List (LinkableComponent V)) : Prop where
  nodup : (components.map LinkableComponent.key).Nodup
  parent : ∀ c ∈ components, ∀ q, c.parentKey = some q →
    ∃ p ∈ components, p.key = q ∧ p.parentKey = none

/-- A feature is a member of a cluster. -/
def IsMember (cluster : CanonicalCluster) (members : List (ComponentHolder V))
    (f : ComponentHolder V) : Prop :=
  (f.id = cluster.survivorId ∨ f.id ∈ cluster.memberIds) ∧ (holdersById members).get f.id = some f

/-- A component of the set has the parent that its first member's has. -/
def Rooted (holders : List (ComponentHolder V)) (set : List CanonicalComponent)
    (c : CanonicalComponent) : Prop :=
  ∃ f ∈ holders, ∃ d ∈ f.components, c.members.head? = some ⟨f.id, d.key⟩ ∧
    (d.parentKey = none → c.parentKey = none) ∧
    ∀ q, d.parentKey = some q → ∃ o ∈ set, c.parentKey = some o.key ∧ ⟨f.id, q⟩ ∈ o.members

/-- **What a component set should be.** -/
structure WellFormedSet (cluster : CanonicalCluster) (members : List (ComponentHolder V))
    (set : List CanonicalComponent) : Prop where
  /-- Every component of every member is in exactly one component of the set. -/
  once : ∀ f, IsMember cluster members f → ∀ d ∈ f.components,
    (set.filter fun c => c.members.contains ⟨f.id, d.key⟩).length = 1
  /-- Of a member, each has at most one component. -/
  apart : ∀ c ∈ set, (c.members.map ComponentMember.featureId).Nodup
  /-- The survivor's keep their keys. -/
  survivor : ∀ f, IsMember cluster members f → f.id = cluster.survivorId → ∀ d ∈ f.components,
    ∃ c ∈ set, c.key = d.key ∧ ⟨f.id, d.key⟩ ∈ c.members
  /-- Parents stand for parents. -/
  rooted : ∀ c ∈ set, Rooted (holdersInOrder cluster members) set c
  /-- No two have one key. -/
  keys : (set.map CanonicalComponent.key).Nodup

end Spec

variable {V : Type} {identityOf : String → Option ComponentIdentity} {jcs : List V → String}
  {null : V} {feature : ComponentHolder V} {survivor : Bool} {st : Components}
  {component : LinkableComponent V}

/-! ## One component -/

/-- Taking a component changes the members of one of the set. -/
theorem joinFirst_eq_some {same : Building → Bool} {member : ComponentMember} {ids : List String} :
    ∀ {set set' : List Building} {key : String},
      joinFirst same member ids set = some (set', key) →
      ∃ front c rest, set = front ++ c :: rest ∧ same c = true ∧
        set' = front ++ c.join member ids :: rest ∧ key = c.key := by
  intro set
  induction set with
  | nil =>
    intro set' key h
    cases h
  | cons b set ih =>
    intro set' key h
    unfold joinFirst at h
    split_ifs at h with hsame
    · obtain ⟨rfl, rfl⟩ := Prod.mk.inj (Option.some.inj h)
      exact ⟨[], b, set, rfl, hsame, rfl, rfl⟩
    · obtain ⟨⟨set'', key'⟩, hr, heq⟩ := Option.map_eq_some_iff.mp h
      obtain ⟨rfl, rfl⟩ := Prod.mk.inj heq
      obtain ⟨front, c, rest, rfl, hc, rfl, rfl⟩ := ih hr
      exact ⟨b :: front, c, rest, rfl, hc, rfl, rfl⟩

variable (identityOf jcs null feature survivor st component) in
/-- **What one component does**: one of the set takes it, or a new one stands for it. -/
theorem placeComponent_cases :
    (∃ front c rest, st.set = front ++ c :: rest ∧
      joined identityOf jcs null feature survivor st component ≠ none ∧ survivor = false ∧
      (∀ m ∈ c.members, m.featureId ≠ feature.id) ∧
      placeComponent identityOf jcs null feature survivor st component =
        { set := front ++ c.join ⟨feature.id, component.key⟩ (identityIds identityOf component) ::
            rest
          taken := st.taken
          placed := st.placed.set component.key c.key }) ∨
    (joined identityOf jcs null feature survivor st component = none ∧
      ∃ new : Building, new.key = newKey feature survivor st.taken component ∧
        new.parentKey = parentOf st component ∧ new.members = [⟨feature.id, component.key⟩] ∧
        placeComponent identityOf jcs null feature survivor st component =
          { set := st.set ++ [new]
            taken := st.taken ++ [new.key]
            placed := st.placed.set component.key new.key }) := by
  unfold placeComponent
  cases hjoined : joined identityOf jcs null feature survivor st component with
  | none => exact Or.inr ⟨rfl, _, rfl, rfl, rfl, rfl⟩
  | some r =>
    left
    obtain ⟨set, key⟩ := r
    unfold joined at hjoined
    split_ifs at hjoined with hsurvivor
    obtain ⟨front, c, rest, hset, hsame, rfl, rfl⟩ := joinFirst_eq_some hjoined
    refine ⟨front, c, rest, hset, by simp, by simpa using hsurvivor, fun m hm heq => ?_, rfl⟩
    simp only [corresponds, Bool.and_eq_true, Bool.not_eq_true'] at hsame
    have hany := List.any_eq_false.mp hsame.1.1.2 m hm
    exact hany (decide_eq_true heq)

/-! ## What stays -/

/-- The components of one set are in another, with at least the same members. -/
def Grows (s t : List Building) : Prop :=
  ∀ c ∈ s, ∃ c' ∈ t, c'.key = c.key ∧ ∀ m ∈ c.members, m ∈ c'.members

/-- Growing is reflexive. -/
theorem Grows.refl (s : List Building) : Grows s s := fun c hc => ⟨c, hc, rfl, fun _ h => h⟩

/-- Growing is transitive. -/
theorem Grows.trans {s t u : List Building} (h : Grows s t) (h' : Grows t u) : Grows s u := by
  intro c hc
  obtain ⟨c', hc', hkey, hsub⟩ := h c hc
  obtain ⟨c'', hc'', hkey', hsub'⟩ := h' c' hc'
  exact ⟨c'', hc'', hkey'.trans hkey, fun m hm => hsub' m (hsub m hm)⟩

/-- One component only adds. -/
theorem grows_placeComponent :
    Grows st.set (placeComponent identityOf jcs null feature survivor st component).set := by
  rcases placeComponent_cases identityOf jcs null feature survivor st component with
    ⟨front, c, rest, hset, -, -, -, heq⟩ | ⟨-, new, -, -, -, heq⟩
  · rw [heq, hset]
    intro b hb
    rcases List.mem_append.mp hb with hb | hb
    · exact ⟨b, List.mem_append_left _ hb, rfl, fun _ h => h⟩
    · rcases List.mem_cons.mp hb with rfl | hb
      · exact ⟨_, List.mem_append_right _ (List.mem_cons_self ..), rfl,
          fun m hm => List.mem_append_left _ hm⟩
      · exact ⟨b, List.mem_append_right _ (List.mem_cons_of_mem _ hb), rfl, fun _ h => h⟩
  · rw [heq]
    exact fun b hb => ⟨b, List.mem_append_left _ hb, rfl, fun _ h => h⟩

/-! ## The invariant -/

/-- The set stands for the components placed so far. -/
structure Placed (holders : List (ComponentHolder V)) (st : Components)
    (done : List ComponentMember) : Prop where
  flat : (st.set.flatMap fun c => c.members).Perm done
  apart : ∀ c ∈ st.set, (c.members.map ComponentMember.featureId).Nodup
  taken : st.taken = st.set.map fun c => c.key
  rooted : ∀ c ∈ st.set,
    Rooted holders (st.set.map Building.toCanonicalComponent) c.toCanonicalComponent

/-- Components of a feature are in the set, where they are said to be. -/
def PlacedIn (feature : ComponentHolder V) (st : Components)
    (components : List (LinkableComponent V)) : Prop :=
  ∀ d ∈ components, ∃ c ∈ st.set, st.placed.get d.key = some c.key ∧ ⟨feature.id, d.key⟩ ∈ c.members

/-- What is rooted in a set is rooted in one that has grown. -/
theorem Rooted.grows {holders : List (ComponentHolder V)} {s t : List Building}
    {c : CanonicalComponent} (h : Rooted holders (s.map Building.toCanonicalComponent) c)
    (hgrows : Grows s t) : Rooted holders (t.map Building.toCanonicalComponent) c := by
  obtain ⟨f, hf, d, hd, hfirst, hnone, hsome⟩ := h
  refine ⟨f, hf, d, hd, hfirst, hnone, fun q hq => ?_⟩
  obtain ⟨o, ho, hparent, hmem⟩ := hsome q hq
  obtain ⟨b, hb, rfl⟩ := List.mem_map.mp ho
  obtain ⟨b', hb', hkey, hsub⟩ := hgrows b hb
  refine ⟨b'.toCanonicalComponent, List.mem_map.mpr ⟨b', hb', rfl⟩, ?_, hsub _ hmem⟩
  rw [hparent, hkey]

/-- A component that takes another has the parent it had. -/
theorem Rooted.join {holders : List (ComponentHolder V)} {set : List CanonicalComponent}
    {c : Building} {member : ComponentMember} {ids : List String}
    (h : Rooted holders set c.toCanonicalComponent) :
    Rooted holders set (c.join member ids).toCanonicalComponent := by
  obtain ⟨f, hf, d, hd, hfirst, hparent⟩ := h
  refine ⟨f, hf, d, hd, ?_, hparent⟩
  have hhead : (c.members ++ [member]).head? = c.members.head? := by
    cases hmembers : c.members with
    | nil => rw [hmembers] at hfirst; cases hfirst
    | cons m rest => rfl
  exact hhead.trans hfirst

/-- **One component keeps the invariant**, if its parent has been placed.

**Proof sketch.** One that takes it keeps its key, its parent and its first member, and had none of
the feature.  A new one has the component for its first member, and for its parent the key of the
one its parent was placed in. -/
theorem Placed.placeComponent {holders : List (ComponentHolder V)} {done : List ComponentMember}
    {before : List (LinkableComponent V)} (h : Placed holders st done)
    (hin : PlacedIn feature st before) (hfeature : feature ∈ holders)
    (hcomponent : component ∈ feature.components)
    (hparent : ∀ q, component.parentKey = some q → ∃ p ∈ before, p.key = q)
    (hnew : ∀ p ∈ before, p.key ≠ component.key) :
    Placed holders (placeComponent identityOf jcs null feature survivor st component)
        (done ++ [⟨feature.id, component.key⟩]) ∧
      PlacedIn feature (placeComponent identityOf jcs null feature survivor st component)
        (before ++ [component]) := by
  have hgrows : Grows st.set
      (Linking.placeComponent identityOf jcs null feature survivor st component).set :=
    grows_placeComponent
  rcases placeComponent_cases identityOf jcs null feature survivor st component with
    ⟨front, c, rest, hset, -, -, hnone, heq⟩ | ⟨-, new, -, hparentKey, hmembers, heq⟩
  · rw [heq] at hgrows ⊢
    have hc : c ∈ st.set := by rw [hset]; simp
    refine ⟨⟨?_, ?_, ?_, ?_⟩, ?_⟩
    · have hflat := h.flat
      rw [hset, List.flatMap_append, List.flatMap_cons, ← List.append_assoc] at hflat
      have hsplit : ((front ++ c.join ⟨feature.id, component.key⟩
          (identityIds identityOf component) :: rest).flatMap fun c => c.members) =
          ((front.flatMap fun c => c.members) ++ c.members) ++
            ([⟨feature.id, component.key⟩] ++ rest.flatMap fun c => c.members) := by
        simp [Building.join]
      rw [hsplit]
      refine (List.perm_append_comm.append_left _).trans ?_
      rw [← List.append_assoc]
      exact hflat.append_right _
    · intro b hb
      rcases List.mem_append.mp hb with hb | hb
      · exact h.apart b (by rw [hset]; exact List.mem_append_left _ hb)
      · rcases List.mem_cons.mp hb with rfl | hb
        · rw [Building.join, List.map_append]
          refine List.nodup_append.mpr ⟨h.apart c hc, List.nodup_singleton _, ?_⟩
          rintro x hx y hy rfl
          obtain ⟨m, hm, rfl⟩ := List.mem_map.mp hx
          exact hnone m hm (List.mem_singleton.mp hy)
        · exact h.apart b (by rw [hset]; exact List.mem_append_right _ (List.mem_cons_of_mem _ hb))
    · rw [h.taken, hset]
      simp [Building.join]
    · intro b hb
      have hold : ∀ b ∈ st.set, Rooted holders _ b.toCanonicalComponent := fun b hb =>
        (h.rooted b hb).grows hgrows
      rcases List.mem_append.mp hb with hb | hb
      · exact hold b (by rw [hset]; exact List.mem_append_left _ hb)
      · rcases List.mem_cons.mp hb with rfl | hb
        · exact (hold c hc).join
        · exact hold b (by rw [hset]; exact List.mem_append_right _ (List.mem_cons_of_mem _ hb))
    · intro d hd
      rcases List.mem_append.mp hd with hd | hd
      · obtain ⟨b, hb, hget, hmem⟩ := hin d hd
        obtain ⟨b', hb', hkey, hsub⟩ := hgrows b hb
        refine ⟨b', hb', ?_, hsub _ hmem⟩
        rw [OrderedMap.get_set_of_ne _ _ (hnew d hd), hget, hkey]
      · obtain rfl := List.mem_singleton.mp hd
        exact ⟨_, List.mem_append_right _ (List.mem_cons_self ..), OrderedMap.get_set_self ..,
          List.mem_append_right _ (List.mem_singleton.mpr rfl)⟩
  · rw [heq] at hgrows ⊢
    refine ⟨⟨?_, ?_, ?_, ?_⟩, ?_⟩
    · rw [List.flatMap_append, List.flatMap_singleton, hmembers]
      exact h.flat.append_right _
    · intro b hb
      rcases List.mem_append.mp hb with hb | hb
      · exact h.apart b hb
      · obtain rfl := List.mem_singleton.mp hb
        rw [hmembers]
        exact List.nodup_singleton _
    · rw [h.taken, List.map_append, List.map_singleton]
    · intro b hb
      rcases List.mem_append.mp hb with hb | hb
      · exact (h.rooted b hb).grows hgrows
      · obtain rfl := List.mem_singleton.mp hb
        refine ⟨feature, hfeature, component, hcomponent, by rw [hmembers]; rfl, fun hnone => ?_,
          fun q hq => ?_⟩
        · rw [hparentKey, parentOf, hnone]
          rfl
        · obtain ⟨p, hp, rfl⟩ := hparent q hq
          obtain ⟨c, hc, hget, hmem⟩ := hin p hp
          refine ⟨c.toCanonicalComponent,
            List.mem_map.mpr ⟨c, List.mem_append_left _ hc, rfl⟩, ?_, hmem⟩
          rw [hparentKey, parentOf, hq, Option.bind_some, hget]
    · intro d hd
      rcases List.mem_append.mp hd with hd | hd
      · obtain ⟨b, hb, hget, hmem⟩ := hin d hd
        exact ⟨b, List.mem_append_left _ hb, by
          rw [OrderedMap.get_set_of_ne _ _ (hnew d hd), hget], hmem⟩
      · obtain rfl := List.mem_singleton.mp hd
        exact ⟨new, List.mem_append_right _ (List.mem_singleton.mpr rfl),
          OrderedMap.get_set_self .., by rw [hmembers]; exact List.mem_singleton.mpr rfl⟩

/-! ## The components of a feature -/

/-- The components of the top level come first. -/
theorem topLevelFirst_pairwise (components : List (LinkableComponent V)) :
    (topLevelFirst components).Pairwise fun a b => a.parentKey ≠ none → b.parentKey ≠ none := by
  have horders : OrdersBy fun a b : LinkableComponent V =>
      decide ((if a.parentKey.isSome then (1 : ℤ) else 0) -
        (if b.parentKey.isSome then 1 else 0) ≤ 0) := by
    refine ⟨fun a b => ?_, fun a b c => ?_⟩
    · cases a.parentKey <;> cases b.parentKey <;> simp
    · cases a.parentKey <;> cases b.parentKey <;> cases c.parentKey <;> simp
  refine (sortBy_pairwise horders components).imp fun {a b} hle ha => ?_
  cases hb : b.parentKey with
  | some q => exact Option.some_ne_none q
  | none =>
    obtain ⟨q, hq⟩ := Option.ne_none_iff_exists'.mp ha
    rw [hq, hb] at hle
    simp at hle

/-- The components of a feature keep the invariant, one after the other. -/
theorem Placed.foldl {holders : List (ComponentHolder V)} (hfeature : feature ∈ holders) :
    ∀ (components before : List (LinkableComponent V)) {st : Components}
      {done : List ComponentMember}, Placed holders st done → PlacedIn feature st before →
      (∀ d ∈ components, d ∈ feature.components) →
      ((before ++ components).map LinkableComponent.key).Nodup →
      (∀ d ∈ components, ∀ q, d.parentKey = some q →
        ∃ p ∈ before ++ components, p.key = q ∧ p.parentKey = none) →
      components.Pairwise (fun a b => a.parentKey ≠ none → b.parentKey ≠ none) →
      Placed holders (components.foldl (Linking.placeComponent identityOf jcs null feature survivor) st)
        (done ++ components.map fun d => ⟨feature.id, d.key⟩) := by
  intro components
  induction components with
  | nil =>
    intro before st done h _ _ _ _ _
    simpa using h
  | cons d rest ih =>
    intro before st done h hin hmem hnodup hparent hfirst
    have hnew : ∀ p ∈ before, p.key ≠ d.key := by
      intro p hp heq
      rw [List.map_append] at hnodup
      exact (List.nodup_append.mp hnodup).2.2 p.key (List.mem_map.mpr ⟨p, hp, rfl⟩) d.key
        (by simp) heq
    have hbefore : ∀ q, d.parentKey = some q → ∃ p ∈ before, p.key = q := by
      intro q hq
      obtain ⟨p, hp, hkey, hnone⟩ := hparent d (List.mem_cons_self ..) q hq
      have hsome : d.parentKey ≠ none := hq ▸ Option.some_ne_none q
      rcases List.mem_append.mp hp with hp | hp
      · exact ⟨p, hp, hkey⟩
      · rcases List.mem_cons.mp hp with rfl | hp
        · exact absurd hnone hsome
        · exact absurd hnone ((List.pairwise_cons.mp hfirst).1 p hp hsome)
    obtain ⟨hnext, hin'⟩ :=
      @Placed.placeComponent V identityOf jcs null feature survivor st d holders done before h hin
        hfeature (hmem d (List.mem_cons_self ..)) hbefore hnew
    have hassoc : before ++ d :: rest = before ++ [d] ++ rest := by simp
    rw [List.foldl_cons, List.map_cons, ← List.singleton_append, ← List.append_assoc]
    exact ih (before ++ [d]) hnext hin' (fun e he => hmem e (List.mem_cons_of_mem _ he))
      (hassoc ▸ hnodup)
      (fun e he q hq => hassoc ▸ hparent e (List.mem_cons_of_mem _ he) q hq)
      (List.pairwise_cons.mp hfirst).2

/-- The components of a feature, as members of the set. -/
def memberList (f : ComponentHolder V) : List ComponentMember :=
  (topLevelFirst f.components).map fun d => ⟨f.id, d.key⟩

/-- The components of a feature keep the invariant. -/
theorem Placed.placeFeature {holders : List (ComponentHolder V)} {done : List ComponentMember}
    (h : Placed holders st done) (hfeature : feature ∈ holders)
    (hschema : SchemaComponents feature.components) (survivorId : String) :
    Placed holders (Linking.placeFeature identityOf jcs null survivorId st feature)
      (done ++ memberList feature) := by
  have hperm := sortBy_perm (fun a b : LinkableComponent V =>
    decide ((if a.parentKey.isSome then (1 : ℤ) else 0) -
      (if b.parentKey.isSome then 1 else 0) ≤ 0)) feature.components
  refine Placed.foldl hfeature (topLevelFirst feature.components) [] ⟨h.flat, h.apart, h.taken, h.rooted⟩
    (fun d hd => by cases hd) (fun d hd => hperm.mem_iff.mp hd) ?_ (fun d hd q hq => ?_)
    (topLevelFirst_pairwise _)
  · exact (hperm.map LinkableComponent.key).nodup_iff.mpr hschema.nodup
  · obtain ⟨p, hp, hkey⟩ := hschema.parent d (hperm.mem_iff.mp hd) q hq
    exact ⟨p, hperm.mem_iff.mpr hp, hkey⟩

/-- The components of all members keep the invariant. -/
theorem Placed.features {holders : List (ComponentHolder V)} (survivorId : String) :
    ∀ (features : List (ComponentHolder V)) {st : Components} {done : List ComponentMember},
      Placed holders st done → (∀ f ∈ features, f ∈ holders) →
      (∀ f ∈ features, SchemaComponents f.components) →
      Placed holders (features.foldl (Linking.placeFeature identityOf jcs null survivorId) st)
        (done ++ features.flatMap memberList) := by
  intro features
  induction features with
  | nil =>
    intro st done h _ _
    simpa using h
  | cons f rest ih =>
    intro st done h hholders hschema
    have hnext : Placed holders (Linking.placeFeature identityOf jcs null survivorId st f)
        (done ++ memberList f) :=
      h.placeFeature (hholders f (List.mem_cons_self ..)) (hschema f (List.mem_cons_self ..))
        survivorId
    rw [List.foldl_cons, List.flatMap_cons, ← List.append_assoc]
    exact ih hnext (fun g hg => hholders g (List.mem_cons_of_mem _ hg))
      fun g hg => hschema g (List.mem_cons_of_mem _ hg)

/-! ## The keys given -/

section Keys

variable (identityOf jcs null)

/-- A component does not join under a key that is taken: where its first key is, its second is
not. -/
def KeyFree (feature : ComponentHolder V) (survivor : Bool) (st : Components)
    (component : LinkableComponent V) : Prop :=
  joined identityOf jcs null feature survivor st component = none →
    firstKey feature survivor component ∈ st.taken → secondKey feature component ∉ st.taken

/-- No component of a feature joins under a key that is taken. -/
def KeysFreeIn (feature : ComponentHolder V) (survivor : Bool) :
    Components → List (LinkableComponent V) → Prop
  | _, [] => True
  | st, d :: rest => KeyFree identityOf jcs null feature survivor st d ∧
      KeysFreeIn feature survivor
        (placeComponent identityOf jcs null feature survivor st d) rest

/-- No component of some features joins under a key that is taken. -/
def KeysFreeFrom (survivorId : String) : Components → List (ComponentHolder V) → Prop
  | _, [] => True
  | st, f :: rest =>
    KeysFreeIn identityOf jcs null f (decide (f.id = survivorId)) { st with placed := .empty }
        (topLevelFirst f.components) ∧
      KeysFreeFrom survivorId (placeFeature identityOf jcs null survivorId st f) rest

/-- **No component joins under a key that is taken**: at no component that none of the set takes are
both the key with the source's id and the key with the feature's local id given already. -/
def KeysFree (cluster : CanonicalCluster) (members : List (ComponentHolder V)) : Prop :=
  KeysFreeFrom identityOf jcs null cluster.survivorId ⟨[], [], .empty⟩
    (holdersInOrder cluster members)

variable {identityOf jcs null}

/-- A component leaves the keys given apart exactly when it joins under a free one. -/
theorem taken_placeComponent :
    (placeComponent identityOf jcs null feature survivor st component).taken.Nodup ↔
      st.taken.Nodup ∧ KeyFree identityOf jcs null feature survivor st component := by
  rcases placeComponent_cases identityOf jcs null feature survivor st component with
    ⟨front, c, rest, -, hjoined, -, -, heq⟩ | ⟨hjoined, new, hkey, -, -, heq⟩
  · rw [heq]
    exact ⟨fun h => ⟨h, fun hnone => absurd hnone hjoined⟩, fun h => h.1⟩
  · rw [heq]
    simp only [List.nodup_append, List.nodup_cons, List.not_mem_nil, not_false_eq_true,
      List.nodup_nil, List.mem_singleton, and_self, true_and, forall_eq, KeyFree, hjoined,
      forall_const, hkey]
    refine and_congr_right fun _ => ?_
    unfold newKey
    by_cases hfirst : firstKey feature survivor component ∈ st.taken
    · simp only [List.contains_iff_mem.mpr hfirst, if_true, hfirst, forall_const]
      exact ⟨fun h hmem => h _ hmem rfl, fun h a ha heq => h (heq ▸ ha)⟩
    · have hcontains : st.taken.contains (firstKey feature survivor component) = false := by
        rw [Bool.eq_false_iff]
        exact fun h => hfirst (List.contains_iff_mem.mp h)
      simp only [hcontains, Bool.false_eq_true, if_false, hfirst, false_implies, iff_true]
      exact fun a ha heq => hfirst (heq ▸ ha)

/-- The keys given by a feature are apart exactly when each is free. -/
theorem taken_foldl : ∀ (components : List (LinkableComponent V)) {st : Components},
    (components.foldl (placeComponent identityOf jcs null feature survivor) st).taken.Nodup ↔
      st.taken.Nodup ∧ KeysFreeIn identityOf jcs null feature survivor st components := by
  intro components
  induction components with
  | nil => simp [KeysFreeIn]
  | cons d rest ih =>
    intro st
    rw [List.foldl_cons, ih, taken_placeComponent, KeysFreeIn, and_assoc]

/-- The keys given are apart exactly when each is free. -/
theorem taken_features (survivorId : String) :
    ∀ (features : List (ComponentHolder V)) {st : Components},
      (features.foldl (placeFeature identityOf jcs null survivorId) st).taken.Nodup ↔
        st.taken.Nodup ∧ KeysFreeFrom identityOf jcs null survivorId st features := by
  intro features
  induction features with
  | nil => simp [KeysFreeFrom]
  | cons f rest ih =>
    intro st
    rw [List.foldl_cons, ih, KeysFreeFrom, ← and_assoc]
    refine and_congr_left fun _ => ?_
    unfold placeFeature
    exact taken_foldl (topLevelFirst f.components)

end Keys

/-! ## The survivor -/

/-- A component of the survivor stands alone, under its own key if no other has it. -/
theorem placeComponent_survivor (hkey : component.key ∉ st.taken) :
    (placeComponent identityOf jcs null feature true st component).taken =
        st.taken ++ [component.key] ∧
      ∃ c ∈ (placeComponent identityOf jcs null feature true st component).set,
        c.key = component.key ∧ ⟨feature.id, component.key⟩ ∈ c.members := by
  rcases placeComponent_cases identityOf jcs null feature true st component with
    ⟨-, -, -, -, -, hfalse, -⟩ | ⟨-, new, hnew, -, hmembers, heq⟩
  · cases hfalse
  · have hcontains : st.taken.contains component.key = false := by
      rw [Bool.eq_false_iff]
      exact fun h => hkey (List.contains_iff_mem.mp h)
    have hown : new.key = component.key := by
      rw [hnew]
      simp only [newKey, firstKey, if_true, hcontains, Bool.false_eq_true, if_false]
    rw [heq, hown]
    exact ⟨rfl, new, List.mem_append_right _ (List.mem_singleton.mpr rfl), hown,
      by rw [hmembers]; exact List.mem_singleton.mpr rfl⟩

/-- The components of a feature only add. -/
theorem grows_foldl : ∀ (components : List (LinkableComponent V)) {st : Components},
    Grows st.set (components.foldl (placeComponent identityOf jcs null feature survivor) st).set := by
  intro components
  induction components with
  | nil => exact Grows.refl _
  | cons d rest ih => exact grows_placeComponent.trans ih

/-- The members only add. -/
theorem grows_features (survivorId : String) :
    ∀ (features : List (ComponentHolder V)) {st : Components},
      Grows st.set (features.foldl (placeFeature identityOf jcs null survivorId) st).set := by
  intro features
  induction features with
  | nil => exact Grows.refl _
  | cons f rest ih =>
    intro st
    have hfeature : Grows ({ st with placed := .empty } : Components).set
        (placeFeature identityOf jcs null survivorId st f).set :=
      grows_foldl (topLevelFirst f.components)
    exact Grows.trans hfeature ih

/-- The survivor's components keep their keys. -/
theorem survivor_foldl : ∀ (components before : List (LinkableComponent V)) {st : Components},
    st.taken = before.map LinkableComponent.key →
    ((before ++ components).map LinkableComponent.key).Nodup → ∀ d ∈ components,
    ∃ c ∈ (components.foldl (placeComponent identityOf jcs null feature true) st).set,
      c.key = d.key ∧ ⟨feature.id, d.key⟩ ∈ c.members := by
  intro components
  induction components with
  | nil =>
    intro _ _ _ _ d hd
    cases hd
  | cons e rest ih =>
    intro before st htaken hnodup d hd
    have hfree : e.key ∉ st.taken := by
      rw [htaken]
      intro hmem
      rw [List.map_append] at hnodup
      exact (List.nodup_append.mp hnodup).2.2 e.key hmem e.key (by simp) rfl
    obtain ⟨htaken', c, hc, hkey, hmem⟩ :=
      @placeComponent_survivor V identityOf jcs null feature st e hfree
    rcases List.mem_cons.mp hd with rfl | hd
    · obtain ⟨c', hc', hkey', hsub⟩ := grows_foldl rest c hc
      exact ⟨c', hc', hkey'.trans hkey, hsub _ hmem⟩
    · refine ih (before ++ [e]) ?_ (by simpa using hnodup) d hd
      rw [htaken', htaken, List.map_append, List.map_singleton]

/-! ## The members in order -/

section Order

variable {cluster : CanonicalCluster} {members : List (ComponentHolder V)}

/-- A member is found under its own id, and is one of those given. -/
theorem get_holdersById {x : String} {f : ComponentHolder V}
    (h : (holdersById members).get x = some f) : f.id = x ∧ f ∈ members := by
  by_cases hx : x ∈ members.map ComponentHolder.id
  · obtain ⟨g, hg, hspec⟩ := OrderedMap.get_foldl_set_of_mem (k := ComponentHolder.id)
      (v := fun _ f => f) (P := fun g => g.id = x ∧ g ∈ members) hx .empty
      fun _ g hg hid => ⟨hid, hg⟩
    rw [show (holdersById members).get x = some g from hg, Option.some.injEq] at h
    exact h ▸ hspec
  · unfold holdersById at h
    rw [OrderedMap.get_foldl_set_of_not_mem (v := fun _ f => f) hx] at h
    cases h

/-- The members in order are the members. -/
theorem mem_holdersInOrder {f : ComponentHolder V} :
    f ∈ holdersInOrder cluster members ↔ IsMember cluster members f := by
  simp only [holdersInOrder, List.mem_filterMap, List.mem_cons, List.mem_filter,
    decide_eq_true_eq, IsMember]
  constructor
  · rintro ⟨x, hx, hget⟩
    obtain ⟨rfl, -⟩ := get_holdersById hget
    exact ⟨hx.imp_right And.left, hget⟩
  · rintro ⟨hid, hget⟩
    refine ⟨f.id, ?_, hget⟩
    by_cases hsurvivor : f.id = cluster.survivorId
    · exact Or.inl hsurvivor
    · exact Or.inr ⟨hid.resolve_left hsurvivor, hsurvivor⟩

/-- Each member comes once. -/
theorem holdersInOrder_nodup (hcluster : cluster.memberIds.Nodup) :
    ((holdersInOrder cluster members).map ComponentHolder.id).Nodup := by
  have hids : (cluster.survivorId :: cluster.memberIds.filter
      fun id => decide (id ≠ cluster.survivorId)).Nodup := by
    refine List.nodup_cons.mpr ⟨fun hmem => ?_, hcluster.filter _⟩
    exact (of_decide_eq_true (List.mem_filter.mp hmem).2) rfl
  refine (List.Sublist.nodup ?_ hids : _)
  have hgeneral : ∀ ids : List String,
      ((ids.filterMap (holdersById members).get).map ComponentHolder.id).Sublist ids := by
    intro ids
    induction ids with
    | nil => exact List.Sublist.refl _
    | cons x ids ih =>
      cases hget : (holdersById members).get x with
      | none =>
        rw [List.filterMap_cons_none hget]
        exact ih.cons x
      | some f =>
        rw [List.filterMap_cons_some hget, List.map_cons, (get_holdersById hget).1]
        exact ih.cons_cons x
  exact hgeneral _

/-- The survivor comes first. -/
theorem holdersInOrder_survivor {f : ComponentHolder V} (hf : IsMember cluster members f)
    (hid : f.id = cluster.survivorId) :
    ∃ rest, holdersInOrder cluster members = f :: rest := by
  have hget : (holdersById members).get cluster.survivorId = some f := hid ▸ hf.2
  exact ⟨_, List.filterMap_cons_some hget⟩

end Order

/-! ## The whole set -/

/-- A value that a list of lists holds once is in exactly one of them. -/
theorem length_filter_contains {α β : Type} [BEq β] [LawfulBEq β] {g : α → List β} {x : β} :
    ∀ {l : List α}, (l.flatMap g).Nodup → x ∈ l.flatMap g →
      (l.filter fun a => (g a).contains x).length = 1 := by
  intro l
  induction l with
  | nil =>
    intro _ hx
    cases hx
  | cons a l ih =>
    intro hnodup hx
    rw [List.flatMap_cons] at hnodup hx
    obtain ⟨-, hl, hdisjoint⟩ := List.nodup_append.mp hnodup
    by_cases ha : x ∈ g a
    · have hnone : (l.filter fun a => (g a).contains x) = [] := by
        refine List.filter_eq_nil_iff.mpr fun b hb hcontains => ?_
        exact hdisjoint x ha x (List.mem_flatMap.mpr
          ⟨b, hb, List.contains_iff_mem.mp hcontains⟩) rfl
      have hyes : (g a).contains x = true := List.contains_iff_mem.mpr ha
      rw [List.filter_cons, if_pos hyes, hnone]
      rfl
    · have hrest := (List.mem_append.mp hx).resolve_left ha
      rw [List.filter_cons, if_neg fun h => ha (List.contains_iff_mem.mp h)]
      exact ih hl hrest

/-- A feature of a source with one charge point. -/
def sampleHolder (id sourceId : String) : ComponentHolder Unit :=
  ⟨id, sourceId, [⟨"1", none, "evse", [], .empty⟩]⟩

/-- A canonical feature of some members. -/
def sampleCluster (survivorId : String) (memberIds : List String) : CanonicalCluster :=
  ⟨"oc:feature:oc.example.org:c1", survivorId, memberIds, []⟩

/-- The schema's condition, decided on one component. -/
theorem schemaComponents_sampleHolder (id sourceId : String) :
    SchemaComponents (sampleHolder id sourceId).components where
  nodup := List.nodup_singleton _
  parent c hc q hq := by
    obtain rfl := List.mem_singleton.mp hc
    cases hq

/-- Three features: of the sources `b` and `s`, and of the source `s` with the local id `b`. -/
def sampleHolders : List (ComponentHolder Unit) :=
  [sampleHolder "oc:feature:a:1" "a", sampleHolder "oc:feature:b:1" "b",
    sampleHolder "oc:feature:s:1" "s", sampleHolder "oc:feature:s:b" "s"]

end OpenConditions.Linking

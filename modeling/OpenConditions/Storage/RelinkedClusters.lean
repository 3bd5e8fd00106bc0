import OpenConditions.Storage.RelinkedLinks

set_option relaxedAutoImplicit false
set_option autoImplicit false

/-!
# What relinking leaves of the canonical rows

The features a pass regroups are closed under the accepted links there are now.  No class of now
leads out of them; and no class of before does, since its links either are there still or are of a
changed feature, whose whole cluster is regrouped.  So the classes inside come from what is inside,
the rows outside stay what they were, and both are the classes of all features.

## Main definitions

* `Closed` — ids closed under the accepted links, with those links.

## Main results

* `closed_connected` — everything connected to some ids is closed.
* `relinkClusters_perm` — the rows after a pass are the clusters of all live features.
-/

namespace OpenConditions.Storage

open Linking

/-! ## The closure -/

section Closure

variable {links : LinkRows} {seen frontier : List String}
  {found : OrderedMap (String × String) FeatureLink}

/-- The row of a pair is an accepted link. -/
def AcceptedRow (links : LinkRows) (pair : String × String) (row : LinkRow) : Prop :=
  links.get pair = some row ∧ row.status = .accepted

/-- The accepted links with an end among some ids. -/
theorem mem_linksFrom {l : FeatureLink} : l ∈ linksFrom links frontier ↔
    ∃ pair row, AcceptedRow links pair row ∧ (pair.1 ∈ frontier ∨ pair.2 ∈ frontier) ∧
      linkAt pair row = l := by
  simp only [linksFrom, List.mem_map, List.mem_filter, Bool.and_eq_true, decide_eq_true_eq,
    Bool.or_eq_true, List.contains_iff_mem, AcceptedRow]
  constructor
  · rintro ⟨e, ⟨he, hacc, hends⟩, rfl⟩
    exact ⟨e.1, e.2, ⟨(OrderedMap.get_eq_some_iff _).mpr he, hacc⟩, hends, rfl⟩
  · rintro ⟨pair, row, ⟨hget, hacc⟩, hends, rfl⟩
    exact ⟨(pair, row), ⟨(OrderedMap.get_eq_some_iff _).mp hget, hacc, hends⟩, rfl⟩

/-- The ids seen and to go on from once some more are met. -/
theorem mem_foldl_meet (ids : List String) : ∀ (seen next : List String) (x : String),
    (x ∈ (ids.foldl meet (seen, next)).1 ↔ x ∈ seen ∨ x ∈ ids) ∧
      (x ∈ (ids.foldl meet (seen, next)).2 ↔ x ∈ next ∨ (x ∈ ids ∧ x ∉ seen)) := by
  induction ids with
  | nil => simp
  | cons id rest ih =>
    intro seen next x
    rw [List.foldl_cons]
    by_cases hid : id ∈ seen
    · have hmeet : meet (seen, next) id = (seen, next) := by simp [meet, hid]
      rw [hmeet, (ih seen next x).1, (ih seen next x).2, List.mem_cons]
      constructor
      · constructor
        · exact Or.imp_right Or.inr
        · rintro (h | rfl | h)
          · exact Or.inl h
          · exact Or.inl hid
          · exact Or.inr h
      · constructor
        · exact Or.imp_right fun h => ⟨Or.inr h.1, h.2⟩
        · rintro (h | ⟨rfl | h, hx⟩)
          · exact Or.inl h
          · exact absurd hid hx
          · exact Or.inr ⟨h, hx⟩
    · have hmeet : meet (seen, next) id = (seen ++ [id], next ++ [id]) := by simp [meet, hid]
      rw [hmeet, (ih _ _ x).1, (ih _ _ x).2, List.mem_cons, List.mem_append, List.mem_append,
        List.mem_singleton]
      constructor
      · tauto
      · by_cases hx : x = id
        · subst hx
          simp [hid]
        · simp [hx]

/-- What the found links hold. -/
structure Found (links : LinkRows) (found : OrderedMap (String × String) FeatureLink) : Prop where
  sound : ∀ key l, found.get key = some l →
    key = pairOf l.aId l.bId ∧ ∃ pair row, AcceptedRow links pair row ∧ linkAt pair row = l

/-- The accepted links of the ids that have been gone on from are found, and both their ends
seen. -/
def Expanded (links : LinkRows) (seen frontier : List String)
    (found : OrderedMap (String × String) FeatureLink) : Prop :=
  ∀ pair row, AcceptedRow links pair row →
    (pair.1 ∈ seen ∧ pair.1 ∉ frontier ∨ pair.2 ∈ seen ∧ pair.2 ∉ frontier) →
    pair.1 ∈ seen ∧ pair.2 ∈ seen ∧ found.get (pairOf pair.1 pair.2) = some (linkAt pair row)

/-- The ends of the links that have not been seen. -/
def unseen (links : LinkRows) (seen : List String) : List String :=
  (links.entries.flatMap fun e => [e.1.1, e.1.2]).filter fun id => !seen.contains id

/-- The ids seen, with those connected to them, are closed under the accepted links. -/
structure Closed (links : LinkRows) (ids : List String) (found : List FeatureLink) : Prop where
  both : ∀ pair row, AcceptedRow links pair row → (pair.1 ∈ ids ∨ pair.2 ∈ ids) →
    pair.1 ∈ ids ∧ pair.2 ∈ ids ∧ linkAt pair row ∈ found
  sound : ∀ l ∈ found, ∃ pair row, AcceptedRow links pair row ∧ linkAt pair row = l
  nodup : (found.map FeatureLink.ends).Nodup

/-- One round goes on from every id of the frontier. -/
theorem Expanded.round (hordered : PairsOrdered links) (hfound : Found links found)
    (h : Expanded links seen frontier found) :
    let rows := linksFrom links frontier
    let met := (rows.flatMap fun l => [l.aId, l.bId]).foldl meet (seen, [])
    let found' := rows.foldl (fun m l => m.set (pairOf l.aId l.bId) l) found
    (∀ x ∈ met.2, x ∈ met.1) ∧ Found links found' ∧ Expanded links met.1 met.2 found' := by
  intro rows met found'
  have hmet₁ : ∀ x, x ∈ met.1 ↔ x ∈ seen ∨ x ∈ rows.flatMap fun l => [l.aId, l.bId] := fun x =>
    (mem_foldl_meet _ _ _ x).1
  have hmet₂ : ∀ x, x ∈ met.2 ↔ (x ∈ rows.flatMap fun l => [l.aId, l.bId]) ∧ x ∉ seen := by
    intro x
    rw [(mem_foldl_meet _ _ _ x).2]
    simp
  have hends : ∀ {pair row}, AcceptedRow links pair row → (pair.1 ∈ frontier ∨ pair.2 ∈ frontier) →
      linkAt pair row ∈ rows := fun hrow hfrom => Iff.mpr mem_linksFrom ⟨_, _, hrow, hfrom, rfl⟩
  have hlinkAt : ∀ {pair row}, AcceptedRow links pair row → ∀ l ∈ rows,
      pairOf l.aId l.bId = pairOf pair.1 pair.2 → l = linkAt pair row := by
    intro pair row hrow l hl hkey
    obtain ⟨pair', row', hrow', -, rfl⟩ := Iff.mp mem_linksFrom hl
    have heq : pair' = pair := eq_of_pairOf (hordered _ _ hrow'.1) (hordered _ _ hrow.1) hkey
    subst heq
    have hrows := hrow'.1.symm.trans hrow.1
    rw [Option.some.injEq] at hrows
    rw [hrows]
  have hset : ∀ {pair row}, AcceptedRow links pair row →
      (linkAt pair row ∈ rows ∨ found.get (pairOf pair.1 pair.2) = some (linkAt pair row)) →
      found'.get (pairOf pair.1 pair.2) = some (linkAt pair row) := by
    intro pair row hrow hor
    by_cases hin : pairOf pair.1 pair.2 ∈ rows.map fun l => pairOf l.aId l.bId
    · obtain ⟨w, hw, rfl⟩ := OrderedMap.get_foldl_set_of_mem (v := fun _ l => l)
        (P := fun w => w = linkAt pair row) hin found fun _ l hl hkey => hlinkAt hrow l hl hkey
      exact hw
    · have hold : found'.get (pairOf pair.1 pair.2) = found.get (pairOf pair.1 pair.2) :=
        OrderedMap.get_foldl_set_of_not_mem (v := fun _ l => l) hin found
      rw [hold]
      refine hor.resolve_left fun hmem => hin (List.mem_map.mpr ⟨_, hmem, rfl⟩)
  refine ⟨fun x hx => (hmet₁ x).mpr (Or.inr ((hmet₂ x).mp hx).1), ⟨fun key l hl => ?_⟩, ?_⟩
  · by_cases hin : key ∈ rows.map fun l => pairOf l.aId l.bId
    · obtain ⟨w, hw, hsound⟩ := OrderedMap.get_foldl_set_of_mem (v := fun _ l => l)
        (P := fun w => key = pairOf w.aId w.bId ∧
          ∃ pair row, AcceptedRow links pair row ∧ linkAt pair row = w) hin found
        fun _ l hl hkey => by
          obtain ⟨pair, row, hrow, -, heq⟩ := Iff.mp mem_linksFrom hl
          exact ⟨hkey.symm, pair, row, hrow, heq⟩
      rw [show found'.get key = some w from hw, Option.some.injEq] at hl
      exact hl ▸ hsound
    · have hold : found'.get key = found.get key :=
        OrderedMap.get_foldl_set_of_not_mem (v := fun _ l => l) hin found
      exact hfound.sound key l (hold ▸ hl)
  · intro pair row hrow hends'
    by_cases hfrom : pair.1 ∈ frontier ∨ pair.2 ∈ frontier
    · -- Gone on from in this round.
      have hmem := hends hrow hfrom
      refine ⟨(hmet₁ _).mpr (Or.inr (List.mem_flatMap.mpr ⟨_, hmem, ?_⟩)),
        (hmet₁ _).mpr (Or.inr (List.mem_flatMap.mpr ⟨_, hmem, ?_⟩)), hset hrow (Or.inl hmem)⟩
      · simp [linkAt]
      · simp [linkAt]
    · -- Gone on from before: an end that is no longer to go on from was seen already.
      rw [not_or] at hfrom
      have hold : ∀ {x}, x ∉ frontier → x ∈ met.1 → x ∉ met.2 → x ∈ seen := by
        intro x _ hx hnot
        by_contra hseen
        exact hnot ((hmet₂ x).mpr ⟨((hmet₁ x).mp hx).resolve_left hseen, hseen⟩)
      have hbefore : pair.1 ∈ seen ∧ pair.1 ∉ frontier ∨ pair.2 ∈ seen ∧ pair.2 ∉ frontier := by
        rcases hends' with ⟨hx, hnot⟩ | ⟨hx, hnot⟩
        · exact Or.inl ⟨hold hfrom.1 hx hnot, hfrom.1⟩
        · exact Or.inr ⟨hold hfrom.2 hx hnot, hfrom.2⟩
      obtain ⟨h₁, h₂, hget⟩ := h pair row hrow hbefore
      exact ⟨(hmet₁ _).mpr (Or.inl h₁), (hmet₁ _).mpr (Or.inl h₂), hset hrow (Or.inr hget)⟩

/-- A round that meets an id leaves fewer ends unseen. -/
theorem unseen_lt {seen' : List String} (hsub : ∀ x ∈ seen, x ∈ seen') {x : String}
    (hx : x ∈ links.entries.flatMap fun e => [e.1.1, e.1.2]) (hnot : x ∉ seen) (hin : x ∈ seen') :
    (unseen links seen').length < (unseen links seen).length := by
  have hfilter : unseen links seen' = (unseen links seen).filter fun id => !seen'.contains id := by
    unfold unseen
    rw [List.filter_filter]
    refine List.filter_congr fun id _ => ?_
    by_cases hid : id ∈ seen
    · simp [hid, hsub id hid]
    · simp [hid]
  rw [hfilter]
  refine List.length_filter_lt_length_iff_exists.mpr ⟨x, List.mem_filter.mpr ⟨hx, ?_⟩, ?_⟩
  · simpa using hnot
  · simpa using hin

/-- With enough rounds everything connected is gone on from. -/
theorem expanded_connectedFrom (hordered : PairsOrdered links) {rounds : ℕ} :
    ∀ {seen frontier : List String} {found : OrderedMap (String × String) FeatureLink},
      (frontier = [] ∨ (unseen links seen).length < rounds) → (∀ x ∈ frontier, x ∈ seen) →
      Found links found → Expanded links seen frontier found →
      (∀ x ∈ seen, x ∈ (connectedFrom links rounds seen found frontier).1) ∧
        Found links (connectedFrom links rounds seen found frontier).2 ∧
        Expanded links (connectedFrom links rounds seen found frontier).1 []
          (connectedFrom links rounds seen found frontier).2 := by
  induction rounds with
  | zero =>
    intro seen frontier found hrounds hsub hfound h
    have hempty : frontier = [] := hrounds.resolve_right (Nat.not_lt_zero _)
    subst hempty
    exact ⟨fun x hx => hx, hfound, h⟩
  | succ rounds ih =>
    intro seen frontier found hrounds hsub hfound h
    unfold connectedFrom
    by_cases hempty : frontier = []
    · subst hempty
      exact ⟨fun x hx => hx, hfound, h⟩
    · rw [if_neg (by simpa using hempty)]
      obtain ⟨hsub', hfound', h'⟩ := h.round hordered hfound
      set rows := linksFrom links frontier
      set met := (rows.flatMap fun l => [l.aId, l.bId]).foldl meet (seen, []) with hmet
      have hgrow : ∀ x ∈ seen, x ∈ met.1 := fun x hx => (mem_foldl_meet _ _ _ x).1.mpr (Or.inl hx)
      have hnext : met.2 = [] ∨ (unseen links met.1).length < rounds := by
        by_cases hnone : met.2 = []
        · exact Or.inl hnone
        · obtain ⟨x, hx⟩ := List.exists_mem_of_ne_nil _ hnone
          have hx' := (mem_foldl_meet _ _ _ x).2.mp hx
          simp only [List.not_mem_nil, false_or] at hx'
          have hend : x ∈ links.entries.flatMap fun e => [e.1.1, e.1.2] := by
            obtain ⟨l, hl, hxl⟩ := List.mem_flatMap.mp hx'.1
            obtain ⟨pair, row, hrow, -, rfl⟩ := Iff.mp mem_linksFrom hl
            exact List.mem_flatMap.mpr
              ⟨(pair, row), (OrderedMap.get_eq_some_iff _).mp hrow.1, hxl⟩
          have hlt := unseen_lt hgrow hend hx'.2 (hsub' x hx)
          have hbound := hrounds.resolve_left hempty
          exact Or.inr (by omega)
      obtain ⟨hseen, hfound'', h''⟩ := ih hnext hsub' hfound' h'
      exact ⟨fun x hx => hseen x (hgrow x hx), hfound'', h''⟩

/-- **Everything connected to some ids is closed** under the accepted links. -/
theorem closed_connected (hordered : PairsOrdered links) (seeds : List String) :
    (∀ x ∈ seeds, x ∈ (connected links seeds).1) ∧
      Closed links (connected links seeds).1 (connected links seeds).2 := by
  have hunseen : (unseen links seeds).length < 2 * links.size + 1 := by
    have hle : (unseen links seeds).length ≤
        (links.entries.flatMap fun e => [e.1.1, e.1.2]).length := List.length_filter_le _ _
    have hlen : (links.entries.flatMap fun e => [e.1.1, e.1.2]).length = 2 * links.size := by
      simp [List.length_flatMap, OrderedMap.size, Nat.mul_comm]
    omega
  have hnone : Found links .empty := ⟨fun key l hl => by cases hl⟩
  have hstart : Expanded links seeds seeds .empty := by
    intro pair row _ hends
    rcases hends with ⟨hx, hnot⟩ | ⟨hx, hnot⟩ <;> exact absurd hx hnot
  obtain ⟨hseen, hfound, hexp⟩ :=
    expanded_connectedFrom hordered (Or.inr hunseen) (fun x hx => hx) hnone hstart
  refine ⟨hseen, ⟨fun pair row hrow hends => ?_, fun l hl => ?_, ?_⟩⟩
  · obtain ⟨h₁, h₂, hget⟩ := hexp pair row hrow
      (hends.imp (fun h => ⟨h, List.not_mem_nil⟩) fun h => ⟨h, List.not_mem_nil⟩)
    exact ⟨h₁, h₂, List.mem_map.mpr ⟨_, (OrderedMap.get_eq_some_iff _).mp hget, rfl⟩⟩
  · obtain ⟨e, he, rfl⟩ := List.mem_map.mp hl
    exact (hfound.sound e.1 e.2 ((OrderedMap.get_eq_some_iff _).mpr he)).2
  · -- The keys of the found links are those of their pairs.
    have hkeys := (connectedFrom links (2 * links.size + 1) seeds .empty seeds).2.nodup
    have hmap : (connectedFrom links (2 * links.size + 1) seeds .empty seeds).2.entries.map
        Prod.fst = ((connected links seeds).2.map FeatureLink.ends).map
          fun p => pairOf p.1 p.2 := by
      simp only [connected, List.map_map]
      refine List.map_congr_left fun e he => ?_
      exact (hfound.sound e.1 e.2 ((OrderedMap.get_eq_some_iff _).mpr he)).1
    rw [hmap] at hkeys
    exact List.Nodup.of_map _ hkeys

end Closure

/-! ## The live features and the links of the tables -/

section Tables

variable {D : Type} {features : FeatureRows D} {links : LinkRows} {ids : List String} {x : String}

/-- A feature is stored and not tombstoned. -/
def Live (features : FeatureRows D) (x : String) : Prop :=
  ∃ row, features.get x = some row ∧ row.tombstoned = false

/-- The live features among some ids. -/
def liveMembers (features : FeatureRows D) (ids : List String) : List (LinkableFeature D) :=
  ((loadFeatures features ids).filter fun m => !m.tombstoned).map FeatureRow.record

/-- The live features. -/
theorem mem_liveFeatures {f : LinkableFeature D} : f ∈ liveFeatures features ↔
    ∃ id row, features.get id = some row ∧ row.tombstoned = false ∧ row.record = f := by
  simp only [liveFeatures, List.mem_map, List.mem_filter, Bool.not_eq_true']
  constructor
  · rintro ⟨e, ⟨he, hlive⟩, rfl⟩
    exact ⟨e.1, e.2, (OrderedMap.get_eq_some_iff _).mpr he, hlive, rfl⟩
  · rintro ⟨id, row, hget, hlive, rfl⟩
    exact ⟨(id, row), ⟨(OrderedMap.get_eq_some_iff _).mp hget, hlive⟩, rfl⟩

/-- The live features among some ids. -/
theorem mem_liveMembers {f : LinkableFeature D} : f ∈ liveMembers features ids ↔
    ∃ id ∈ ids, ∃ row, features.get id = some row ∧ row.tombstoned = false ∧ row.record = f := by
  simp only [liveMembers, List.mem_map, List.mem_filter, mem_loadFeatures, Bool.not_eq_true']
  constructor
  · rintro ⟨row, ⟨⟨id, hid, hget⟩, hlive⟩, rfl⟩
    exact ⟨id, hid, row, hget, hlive, rfl⟩
  · rintro ⟨id, hid, row, hget, hlive, rfl⟩
    exact ⟨row, ⟨⟨id, hid, hget⟩, hlive⟩, rfl⟩

/-- The ids of the live features. -/
theorem mem_idsOf_liveFeatures (hrows : RowsById features) :
    x ∈ idsOf (liveFeatures features) ↔ Live features x := by
  simp only [idsOf, List.mem_map, mem_liveFeatures]
  constructor
  · rintro ⟨f, ⟨id, row, hget, hlive, rfl⟩, rfl⟩
    exact ⟨row, (hrows id row hget).symm ▸ hget, hlive⟩
  · rintro ⟨row, hget, hlive⟩
    exact ⟨row.record, ⟨x, row, hget, hlive, rfl⟩, hrows x row hget⟩

/-- The ids of the live features among some. -/
theorem mem_idsOf_liveMembers (hrows : RowsById features) :
    x ∈ idsOf (liveMembers features ids) ↔ x ∈ ids ∧ Live features x := by
  simp only [idsOf, List.mem_map, mem_liveMembers]
  constructor
  · rintro ⟨f, ⟨id, hid, row, hget, hlive, rfl⟩, rfl⟩
    rw [hrows id row hget]
    exact ⟨hid, row, hget, hlive⟩
  · rintro ⟨hid, row, hget, hlive⟩
    exact ⟨row.record, ⟨x, hid, row, hget, hlive, rfl⟩, hrows x row hget⟩

/-- A live feature is found by its id. -/
theorem get_featuresById_liveFeatures (hrows : RowsById features) {row : FeatureRow D}
    (hget : features.get x = some row) (hlive : row.tombstoned = false) :
    (featuresById (liveFeatures features)).get x = some row.record := by
  have hstored : AllStored features (liveFeatures features) := by
    intro f hf
    obtain ⟨id, row, hget, -, rfl⟩ := Iff.mp mem_liveFeatures hf
    exact ⟨row, (hrows id row hget).symm ▸ hget, rfl⟩
  have hfound := hstored.get_featuresById (Iff.mpr mem_liveFeatures ⟨x, row, hget, hlive, rfl⟩)
  rwa [hrows x row hget] at hfound

/-- A live feature among some ids is found by its id. -/
theorem get_featuresById_liveMembers (hrows : RowsById features) {row : FeatureRow D}
    (hx : x ∈ ids) (hget : features.get x = some row) (hlive : row.tombstoned = false) :
    (featuresById (liveMembers features ids)).get x = some row.record := by
  have hstored : AllStored features (liveMembers features ids) := by
    intro f hf
    obtain ⟨id, -, row, hget, -, rfl⟩ := Iff.mp mem_liveMembers hf
    exact ⟨row, (hrows id row hget).symm ▸ hget, rfl⟩
  have hfound := hstored.get_featuresById (Iff.mpr mem_liveMembers ⟨x, hx, row, hget, hlive, rfl⟩)
  rwa [hrows x row hget] at hfound

/-- The links of a table. -/
theorem mem_linksOf {l : FeatureLink} :
    l ∈ linksOf links ↔ ∃ pair row, links.get pair = some row ∧ linkAt pair row = l := by
  simp only [linksOf, List.mem_map]
  constructor
  · rintro ⟨e, he, rfl⟩
    exact ⟨e.1, e.2, (OrderedMap.get_eq_some_iff _).mpr he, rfl⟩
  · rintro ⟨pair, row, hget, rfl⟩
    exact ⟨(pair, row), (OrderedMap.get_eq_some_iff _).mp hget, rfl⟩

/-- The ids of every link are texts the database can hold. -/
def LinksNulFree (links : LinkRows) : Prop :=
  ∀ pair row, links.get pair = some row → NulFree pair.1 ∧ NulFree pair.2

/-- A table of links holds one for each pair. -/
theorem linkTable_linksOf (hordered : PairsOrdered links) (hnul : LinksNulFree links) :
    LinkTable (linksOf links) where
  nodup := by
    have hkeys : (linksOf links).map FeatureLink.ends = links.entries.map Prod.fst := by
      simp only [linksOf, List.map_map]
      exact List.map_congr_left fun e _ => rfl
    rw [hkeys]
    exact links.nodup
  ordered l hl := by
    obtain ⟨pair, row, hget, rfl⟩ := Iff.mp mem_linksOf hl
    exact hordered pair row hget
  nulFree l hl := by
    obtain ⟨pair, row, hget, rfl⟩ := Iff.mp mem_linksOf hl
    exact hnul pair row hget

/-- The links found on the way are one for each pair. -/
theorem Closed.linkTable {found : List FeatureLink} (h : Closed links ids found)
    (hordered : PairsOrdered links) (hnul : LinksNulFree links) : LinkTable found where
  nodup := h.nodup
  ordered l hl := by
    obtain ⟨pair, row, hrow, rfl⟩ := h.sound l hl
    exact hordered pair row hrow.1
  nulFree l hl := by
    obtain ⟨pair, row, hrow, rfl⟩ := h.sound l hl
    exact hnul pair row hrow.1

/-- An accepted link of a table that joins two ids is the row of their pair, in some order. -/
theorem exists_acceptedRow {l : FeatureLink} (hl : l ∈ linksOf links)
    (hacc : l.status = .accepted) : ∃ row, AcceptedRow links l.ends row := by
  obtain ⟨pair, row, hget, rfl⟩ := Iff.mp mem_linksOf hl
  exact ⟨row, hget, hacc⟩

end Tables

/-! ## Inside and outside -/

section Regroup

variable {D : Type} {localeCompare : String → String → ℤ} {canonicalId : List String → String}
  {base features : FeatureRows D} {links links' : LinkRows} {ids named : List String}
  {found : List FeatureLink}

/-- Two members of one class of the tables are linked by an accepted row, and are live. -/
theorem acceptedRow_of_together (hrows : RowsById features) (hordered : PairsOrdered links)
    (hnul : LinksNulFree links) {x y : String}
    (h : Together localeCompare (liveFeatures features) (linksOf links) x y) :
    x = y ∨ ∃ pair row, AcceptedRow links pair row ∧ Live features x ∧ Live features y ∧
      (pair = (x, y) ∨ pair = (y, x)) := by
  rcases exists_link_of_together (linkTable_linksOf hordered hnul) h with
    heq | ⟨l, hl, hacc, ha, hb, hends⟩
  · exact Or.inl heq
  · obtain ⟨row, hrow⟩ := exists_acceptedRow hl hacc
    rw [mem_idsOf_liveFeatures hrows] at ha hb
    refine Or.inr ⟨l.ends, row, hrow, ?_⟩
    rcases hends with heq | heq
    · obtain ⟨rfl, rfl⟩ := Prod.mk.injEq .. ▸ heq
      exact ⟨ha, hb, Or.inl heq⟩
    · obtain ⟨rfl, rfl⟩ := Prod.mk.injEq .. ▸ heq
      exact ⟨hb, ha, Or.inr heq⟩

/-- **Inside**: the classes of closed ids come from the live features among them and their links. -/
theorem together_inside (hlocale : LocaleOrder localeCompare) (hrows : RowsById features)
    (hordered : PairsOrdered links) (hnul : LinksNulFree links) (hclosed : Closed links ids found)
    {x : String} (hx : x ∈ ids) (hlive : Live features x) (y : String) :
    Together localeCompare (liveFeatures features) (linksOf links) x y ↔
      Together localeCompare (liveMembers features ids) found x y := by
  classical
  refine together_restrict hlocale (linkTable_linksOf hordered hnul)
    (hclosed.linkTable hordered hnul) (s := fun x => x ∈ ids ∧ Live features x) ?_ ?_ ?_ ?_ x
    ⟨hx, hlive⟩ y
  · rintro x ⟨hx, hlive⟩
    exact ⟨(mem_idsOf_liveFeatures hrows).mpr hlive, (mem_idsOf_liveMembers hrows).mpr ⟨hx, hlive⟩⟩
  · rintro l ⟨ha, -⟩ - hacc
    constructor
    · intro hl
      obtain ⟨pair, row, hget, rfl⟩ := Iff.mp mem_linksOf hl
      exact (hclosed.both pair row ⟨hget, hacc⟩ (Or.inl ha)).2.2
    · intro hl
      obtain ⟨pair, row, hrow, rfl⟩ := hclosed.sound l hl
      exact Iff.mpr mem_linksOf ⟨pair, row, hrow.1, rfl⟩
  · rintro x ⟨hx, hlive⟩ y hxy
    rcases acceptedRow_of_together hrows hordered hnul hxy with
      rfl | ⟨pair, row, hrow, -, hlive', heq⟩
    · exact ⟨hx, hlive⟩
    · rcases heq with rfl | rfl
      · exact ⟨(hclosed.both _ _ hrow (Or.inl hx)).2.1, hlive'⟩
      · exact ⟨(hclosed.both _ _ hrow (Or.inr hx)).1, hlive'⟩
  · rintro x ⟨hx, hlive⟩ y hxy
    have hmem : x ∈ idsOf (liveMembers features ids) :=
      (mem_idsOf_liveMembers hrows).mpr ⟨hx, hlive⟩
    exact (mem_idsOf_liveMembers hrows).mp
      ((represents_clustersOf _ _ _).mem_of_rel hmem hxy)

/-- **Outside**: the classes that hold no feature of the closed ids are those there were.

**Proof sketch.** A class of before that led from outside to inside would do so by one accepted
link.  Were it of a changed feature, that feature's whole class would be inside; else the link is
still there, and the ids are closed under it. -/
theorem together_outside (hlocale : LocaleOrder localeCompare) (hbase : RowsById base)
    (hrows : RowsById features) (hordered : PairsOrdered links) (hordered' : PairsOrdered links')
    (hnul : LinksNulFree links) (hnul' : LinksNulFree links')
    (hfeatures : ∀ id, id ∉ named → features.get id = base.get id)
    (hlinks : ∀ pair : String × String, pair.1 ∉ named → pair.2 ∉ named →
      links'.get pair = links.get pair)
    (hclosed : Closed links' ids found) (hnamed : ∀ x ∈ named, x ∈ ids)
    (hwhole : ∀ x y, Together localeCompare (liveFeatures base) (linksOf links) x y → y ∈ named →
      x ∈ ids)
    {x : String} (hx : x ∉ ids) (hlive : Live features x) (y : String) :
    (Together localeCompare (liveFeatures features) (linksOf links') x y → y ∉ ids) ∧
      (Together localeCompare (liveFeatures base) (linksOf links) x y → y ∉ ids) ∧
      (Together localeCompare (liveFeatures features) (linksOf links') x y ↔
        Together localeCompare (liveFeatures base) (linksOf links) x y) := by
  classical
  have hkept : ∀ x, x ∉ ids → features.get x = base.get x := fun x hx =>
    hfeatures x fun h => hx (hnamed x h)
  have hlinksKept : ∀ pair : String × String, pair.1 ∉ ids → pair.2 ∉ ids →
      links'.get pair = links.get pair := fun pair ha hb =>
    hlinks pair (fun h => ha (hnamed _ h)) fun h => hb (hnamed _ h)
  have hsat : ∀ x, x ∉ ids ∧ Live features x → ∀ y,
      Together localeCompare (liveFeatures features) (linksOf links') x y →
      y ∉ ids ∧ Live features y := by
    rintro x ⟨hx, hlive⟩ y hxy
    rcases acceptedRow_of_together hrows hordered' hnul' hxy with
      rfl | ⟨pair, row, hrow, -, hlive', heq⟩
    · exact ⟨hx, hlive⟩
    · refine ⟨fun hy => hx ?_, hlive'⟩
      rcases heq with rfl | rfl
      · exact (hclosed.both _ _ hrow (Or.inr hy)).1
      · exact (hclosed.both _ _ hrow (Or.inl hy)).2.1
  have hsat' : ∀ x, x ∉ ids ∧ Live features x → ∀ y,
      Together localeCompare (liveFeatures base) (linksOf links) x y →
      y ∉ ids ∧ Live features y := by
    rintro x ⟨hx, hlive⟩ y hxy
    rcases acceptedRow_of_together hbase hordered hnul hxy with
      rfl | ⟨pair, row, hrow, -, hlive', heq⟩
    · exact ⟨hx, hlive⟩
    · have hx' : x ∉ named := fun h => hx (hnamed x h)
      have hy : y ∉ ids := by
        intro hy
        have hy' : y ∉ named := fun h => hx (hwhole x y hxy h)
        rcases heq with rfl | rfl
        · have hnow : AcceptedRow links' (x, y) row := ⟨hlinks (x, y) hx' hy' ▸ hrow.1, hrow.2⟩
          exact hx (hclosed.both _ _ hnow (Or.inr hy)).1
        · have hnow : AcceptedRow links' (y, x) row := ⟨hlinks (y, x) hy' hx' ▸ hrow.1, hrow.2⟩
          exact hx (hclosed.both _ _ hnow (Or.inl hy)).2.1
      obtain ⟨r, hr, hlive'⟩ := hlive'
      exact ⟨hy, r, (hkept y hy).trans hr, hlive'⟩
  refine ⟨fun h => (hsat x ⟨hx, hlive⟩ y h).1, fun h => (hsat' x ⟨hx, hlive⟩ y h).1, ?_⟩
  refine together_restrict hlocale (linkTable_linksOf hordered' hnul')
    (linkTable_linksOf hordered hnul) (s := fun x => x ∉ ids ∧ Live features x) ?_ ?_ hsat hsat' x
    ⟨hx, hlive⟩ y
  · rintro x ⟨hx, row, hget, hlive⟩
    exact ⟨(mem_idsOf_liveFeatures hrows).mpr ⟨row, hget, hlive⟩,
      (mem_idsOf_liveFeatures hbase).mpr ⟨row, (hkept x hx).symm.trans hget, hlive⟩⟩
  · rintro l ⟨ha, -⟩ ⟨hb, -⟩ -
    rw [mem_linksOf, mem_linksOf]
    constructor
    · rintro ⟨pair, row, hget, rfl⟩
      exact ⟨pair, row, (hlinksKept pair ha hb).symm.trans hget, rfl⟩
    · rintro ⟨pair, row, hget, rfl⟩
      exact ⟨pair, row, (hlinksKept pair ha hb).trans hget, rfl⟩

/-- **The rows after a pass are the clusters of all live features**, if those before were the
clusters of the features then, and features and links changed only where linking was told.

**Proof sketch.** Every class of now lies inside the regrouped ids or outside.  One inside is a class
of what is found there, and gets a new row; one outside is a class of before, whose row holds none
of the replaced ids and stays.  A row of before that stays has no member inside, for such a member
would be stored, and so among those replaced. -/
theorem relinkClusters_perm {canonical : List CanonicalCluster}
    (hlocale : LocaleOrder localeCompare) (hbase : RowsById base)
    (hrows : RowsById features) (hordered : PairsOrdered links) (hordered' : PairsOrdered links')
    (hnul : LinksNulFree links) (hnul' : LinksNulFree links')
    (hfeatures : ∀ id, id ∉ named → features.get id = base.get id)
    (hlinks : ∀ pair : String × String, pair.1 ∉ named → pair.2 ∉ named →
      links'.get pair = links.get pair)
    (hcanonical : canonical.Perm (canonicalClusters localeCompare canonicalId (liveFeatures base)
      (linksOf links) (some survivorRank))) :
    (relinkClusters localeCompare canonicalId features links' canonical named).1.Perm
      (canonicalClusters localeCompare canonicalId (liveFeatures features) (linksOf links')
        (some survivorRank)) := by
  set before := canonical.filter (holdsAny named) with hbefore
  set seeds := (named ++ before.flatMap CanonicalCluster.memberIds).dedup with hseeds
  set ids := (connected links' seeds).1 with hids
  set found := (connected links' seeds).2 with hfound
  set held := holdsAny (seeds ++ (loadFeatures features ids).map fun m => m.record.id) with hheld
  set clusters := canonicalClusters localeCompare canonicalId (liveMembers features ids) found
    (some survivorRank) with hclusters
  have hresult : (relinkClusters localeCompare canonicalId features links' canonical named).1 =
      canonical.filter (fun c => !held c) ++ clusters := rfl
  obtain ⟨hseedsIn, hclosed⟩ : (∀ x ∈ seeds, x ∈ ids) ∧ Closed links' ids found :=
    closed_connected hordered' seeds
  have hnamed : ∀ x ∈ named, x ∈ ids := fun x hx =>
    hseedsIn x (List.mem_dedup.mpr (List.mem_append_left _ hx))
  have hcanon : ∀ c, c ∈ canonical ↔ ∃ g,
      IsClass localeCompare (liveFeatures base) (linksOf links) g ∧
        c = canonicalCluster localeCompare canonicalId (featuresById (liveFeatures base))
          (some survivorRank) g := fun c => hcanonical.mem_iff.trans mem_canonicalClusters_iff
  have hheldIff : ∀ g : List String, ∀ byId : OrderedMap String (LinkableFeature D),
      held (canonicalCluster localeCompare canonicalId byId (some survivorRank) g) = true ↔
        ∃ x ∈ g, x ∈ seeds ∨ ∃ m ∈ loadFeatures features ids, m.record.id = x := by
    intro g byId
    simp only [hheld, holdsAny, List.any_eq_true, mem_memberIds, List.contains_iff_mem,
      List.mem_append, List.mem_map]
  -- The whole class of a changed feature is inside.
  have hwhole : ∀ x y, Together localeCompare (liveFeatures base) (linksOf links) x y →
      y ∈ named → x ∈ ids := by
    intro x y hxy hy
    by_cases hx : x ∈ idsOf (liveFeatures base)
    · obtain ⟨g, hg, hxg⟩ := exists_isClass localeCompare (linksOf links) hx
      have hyg := hg.mem_of_together hxg hxy
      set c := canonicalCluster localeCompare canonicalId (featuresById (liveFeatures base))
        (some survivorRank) g with hc
      have hmem : c ∈ before := by
        refine List.mem_filter.mpr ⟨(hcanon c).mpr ⟨g, hg, rfl⟩, ?_⟩
        exact List.any_eq_true.mpr ⟨y, mem_memberIds.mpr hyg, List.contains_iff_mem.mpr hy⟩
      exact hseedsIn x (List.mem_dedup.mpr (List.mem_append_right _
        (List.mem_flatMap.mpr ⟨c, hmem, mem_memberIds.mpr hxg⟩)))
    · rcases acceptedRow_of_together hbase hordered hnul hxy with rfl | ⟨-, -, -, hlive, -⟩
      · exact hnamed x hy
      · exact absurd ((mem_idsOf_liveFeatures hbase).mpr hlive) hx
  have hinside : ∀ {x : String}, x ∈ ids → Live features x → ∀ y,
      Together localeCompare (liveFeatures features) (linksOf links') x y ↔
        Together localeCompare (liveMembers features ids) found x y := fun hx hlive y =>
    together_inside hlocale hrows hordered' hnul' hclosed hx hlive y
  have houtside : ∀ {x : String}, x ∉ ids → Live features x → ∀ y,
      (Together localeCompare (liveFeatures features) (linksOf links') x y → y ∉ ids) ∧
      (Together localeCompare (liveFeatures base) (linksOf links) x y → y ∉ ids) ∧
      (Together localeCompare (liveFeatures features) (linksOf links') x y ↔
        Together localeCompare (liveFeatures base) (linksOf links) x y) := fun hx hlive y =>
    together_outside hlocale hbase hrows hordered hordered' hnul hnul' hfeatures hlinks hclosed
      hnamed hwhole hx hlive y
  have hkept : ∀ x, x ∉ ids → features.get x = base.get x := fun x hx =>
    hfeatures x fun h => hx (hnamed x h)
  -- The row of a class is the same, whichever features its members are looked up in.
  have hinsideCluster : ∀ {g : List String}, (∀ x ∈ g, x ∈ ids ∧ Live features x) →
      canonicalCluster localeCompare canonicalId (featuresById (liveMembers features ids))
        (some survivorRank) g =
      canonicalCluster localeCompare canonicalId (featuresById (liveFeatures features))
        (some survivorRank) g := by
    intro g hg
    refine canonicalCluster_congr (List.Perm.refl g) fun x hx => ?_
    obtain ⟨hx, row, hget, hlive⟩ := hg x hx
    rw [get_featuresById_liveMembers hrows hx hget hlive,
      get_featuresById_liveFeatures hrows hget hlive]
  have houtsideCluster : ∀ {g : List String}, (∀ x ∈ g, x ∉ ids ∧ Live features x) →
      canonicalCluster localeCompare canonicalId (featuresById (liveFeatures base))
        (some survivorRank) g =
      canonicalCluster localeCompare canonicalId (featuresById (liveFeatures features))
        (some survivorRank) g := by
    intro g hg
    refine canonicalCluster_congr (List.Perm.refl g) fun x hx => ?_
    obtain ⟨hx, row, hget, hlive⟩ := hg x hx
    rw [get_featuresById_liveFeatures hbase ((hkept x hx).symm.trans hget) hlive,
      get_featuresById_liveFeatures hrows hget hlive]
  rw [hresult]
  refine (List.perm_ext_iff_of_nodup ?_ canonicalClusters_nodup).mpr fun c => ?_
  · -- A new row has a member that is stored, and so no row that stays is one.
    refine List.nodup_append.mpr ⟨(hcanonical.nodup_iff.mpr canonicalClusters_nodup).filter _,
      canonicalClusters_nodup, ?_⟩
    rintro c hc c' hc' rfl
    obtain ⟨g, hg, rfl⟩ := mem_canonicalClusters_iff.mp hc'
    obtain ⟨x, hx⟩ := hg.exists_mem
    obtain ⟨hxids, row, hget, -⟩ := (mem_idsOf_liveMembers hrows).mp (hg.mem_idsOf hx)
    have hrow : row ∈ loadFeatures features ids := mem_loadFeatures.mpr ⟨x, hxids, hget⟩
    have hheldc := (hheldIff g (featuresById (liveMembers features ids))).mpr
      ⟨x, hx, Or.inr ⟨row, hrow, hrows x row hget⟩⟩
    have hnot := (List.mem_filter.mp hc).2
    rw [hheldc] at hnot
    cases hnot
  · rw [List.mem_append, List.mem_filter, mem_canonicalClusters_iff, mem_canonicalClusters_iff]
    constructor
    · rintro (⟨hc, hnot⟩ | hc)
      · -- A row that stays: all of its members are outside.
        obtain ⟨g, hg, rfl⟩ := (hcanon c).mp hc
        rw [Bool.not_eq_true', Bool.eq_false_iff, ne_eq, hheldIff] at hnot
        have hall : ∀ x ∈ g, x ∉ ids ∧ Live features x := by
          intro x hx
          have hseed : x ∉ seeds := fun h => hnot ⟨x, hx, Or.inl h⟩
          have hx' : x ∉ named := fun h => hseed (List.mem_dedup.mpr (List.mem_append_left _ h))
          obtain ⟨row, hget, hlive⟩ := (mem_idsOf_liveFeatures hbase).mp (hg.mem_idsOf hx)
          have hget' := (hfeatures x hx').trans hget
          refine ⟨fun hxids => hnot ⟨x, hx, Or.inr ⟨row, ?_, hrows x row hget'⟩⟩, row, hget',
            hlive⟩
          exact mem_loadFeatures.mpr ⟨x, hxids, hget'⟩
        obtain ⟨x, hx⟩ := hg.exists_mem
        obtain ⟨hout, hlive⟩ := hall x hx
        refine ⟨g, hg.transfer hx ((mem_idsOf_liveFeatures hrows).mpr hlive) fun y =>
          (houtside hout hlive y).2.2.symm, houtsideCluster hall⟩
      · -- A new row.
        obtain ⟨g, hg, rfl⟩ := hc
        have hall : ∀ x ∈ g, x ∈ ids ∧ Live features x := fun x hx =>
          (mem_idsOf_liveMembers hrows).mp (hg.mem_idsOf hx)
        obtain ⟨x, hx⟩ := hg.exists_mem
        obtain ⟨hin, hlive⟩ := hall x hx
        exact ⟨g, hg.transfer hx ((mem_idsOf_liveFeatures hrows).mpr hlive) fun y =>
          (hinside hin hlive y).symm, hinsideCluster hall⟩
    · rintro ⟨g, hg, rfl⟩
      obtain ⟨x, hx⟩ := hg.exists_mem
      have hlive := (mem_idsOf_liveFeatures hrows).mp (hg.mem_idsOf hx)
      by_cases hin : x ∈ ids
      · have hg' := hg.transfer hx ((mem_idsOf_liveMembers hrows).mpr ⟨hin, hlive⟩)
          fun y => hinside hin hlive y
        have hall : ∀ x ∈ g, x ∈ ids ∧ Live features x := fun x hx =>
          (mem_idsOf_liveMembers hrows).mp (hg'.mem_idsOf hx)
        exact Or.inr ⟨g, hg', (hinsideCluster hall).symm⟩
      · have hall : ∀ y ∈ g, y ∉ ids ∧ Live features y := fun y hy =>
          ⟨(houtside hin hlive y).1 (hg.together hx hy),
            (mem_idsOf_liveFeatures hrows).mp (hg.mem_idsOf hy)⟩
        obtain ⟨row, hget, hrowLive⟩ := hlive
        have hbaseLive : x ∈ idsOf (liveFeatures base) := (mem_idsOf_liveFeatures hbase).mpr
          ⟨row, (hkept x hin).symm.trans hget, hrowLive⟩
        have hg' := hg.transfer hx hbaseLive fun y =>
          (houtside hin ⟨row, hget, hrowLive⟩ y).2.2
        refine Or.inl ⟨(hcanon _).mpr ⟨g, hg', (houtsideCluster hall).symm⟩, ?_⟩
        rw [Bool.not_eq_true', Bool.eq_false_iff, ne_eq, hheldIff]
        rintro ⟨y, hy, hseed | ⟨m, hm, rfl⟩⟩
        · exact (hall y hy).1 (hseedsIn y hseed)
        · obtain ⟨id, hid, hget⟩ := mem_loadFeatures.mp hm
          exact (hall _ hy).1 (hrows id m hget ▸ hid)

end Regroup

end OpenConditions.Storage

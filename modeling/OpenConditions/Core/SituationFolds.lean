import Mathlib.Data.List.Induction
import OpenConditions.Core.Situations

set_option relaxedAutoImplicit false
set_option autoImplicit false

/-!
# What a folded page keeps

Every record of a folded page is built from some of the page's records by merging, each of the
page's records in exactly one of them.  A merge lists what both of its records list, so no credit
is lost or invented, and a group is only joined by a record of a source it does not have yet.

## Main definitions

* `attributions` — the publishers a record credits: its own and those of its merged sources.
* `Folds` — a record is built from some records by merging.
* `FoldInv` — what holds of the groups after each record.

## Main results

* `visitAll_ne_nil`, `memberOf_ne_nil` — a record with a shape has a point.
* `FoldInv.add` — one record keeps the invariant.
* `attributions_dedupeSituations` — the credits of a folded page, and the sources of each record.
-/

namespace OpenConditions.Core

/-! ## Credits -/

/-- The source, the record and the attribution of each publisher a record credits. -/
def attributions (record : Situation) : List (String × String × Json) :=
  (record.provenance.sourceId, record.provenance.recordId, record.provenance.attribution) ::
    (record.provenance.mergedSources.getD []).map fun merged =>
      (merged.source, merged.recordId, merged.attribution)

/-- A record built from some records by merging them. -/
inductive Folds : Situation → List Situation → Prop where
  | single (record : Situation) : Folds record [record]
  | merge {kept folded : Situation} {keeps folds : List Situation} :
    Folds kept keeps → Folds folded folds → Folds (merge kept folded) (keeps ++ folds)

/-- A merge credits whom its two records credit. -/
theorem attributions_merge (kept folded : Situation) :
    (attributions (merge kept folded)).Perm (attributions kept ++ attributions folded) := by
  simp [attributions, merge]

/-- A merged record credits whom the records it is built from credit. -/
theorem Folds.attributions {record : Situation} {records : List Situation}
    (h : Folds record records) : (attributions record).Perm (records.flatMap attributions) := by
  induction h with
  | single record => simp
  | merge _ _ ihkept ihfolded =>
    rw [List.flatMap_append]
    exact (attributions_merge ..).trans (ihkept.append ihfolded)

/-- A record is built from one record at least. -/
theorem Folds.ne_nil {record : Situation} {records : List Situation} (h : Folds record records) :
    records ≠ [] := by
  induction h with
  | single record => exact List.cons_ne_nil _ _
  | merge _ _ ihkept _ => exact List.append_ne_nil_of_left_ne_nil ihkept _

/-! ## A shape has a point -/

/-- A value read as a number is one. -/
theorem eq_num_of_number {value : Json} {q : ℚ} (h : value.number = some q) : value = .num q := by
  cases value <;> simp_all [Json.number]

/-- Positions of the first tree are positions of the trees. -/
theorem visitAll_ne_nil_left {item : Json} {items : List Json} (h : visit item ≠ []) :
    visitAll (item :: items) ≠ [] := by
  rw [visitAll]
  simp [h]

mutual

/-- A tree with a part of valid vertices has a position. -/
theorem visit_ne_nil : ∀ (tree : Json) {part : List (Option ℚ × Option ℚ)}, part ∈ walk tree →
    (∀ v ∈ part, (validVertex v).isSome = true) → visit tree ≠ []
  | .arr items, part, hmem, hvalid => by
    rw [walk.eq_def] at hmem
    split at hmem
    · rename_i x y rest heq
      cases heq
      simp [visit]
    · -- A line: its first vertex is valid, so it is a position of two numbers.
      rename_i x rest others heq
      cases heq
      rw [List.mem_singleton] at hmem
      subst hmem
      have hfirst := hvalid _ (List.mem_cons_self ..)
      have hpos : ∃ y rest', rest = .num y :: rest' := by
        cases rest with
        | nil => simp [vertexOf, validVertex] at hfirst
        | cons y rest' =>
          cases hy : y.number with
          | none =>
            simp only [vertexOf, hy] at hfirst
            simp [validVertex] at hfirst
          | some q => exact ⟨q, rest', by rw [eq_num_of_number hy]⟩
      obtain ⟨y, rest', rfl⟩ := hpos
      have hvisit : visit (.arr (.num x :: .num y :: rest')) ≠ [] := by simp [visit]
      rw [visit.eq_def]
      exact visitAll_ne_nil_left hvisit
    · rename_i heq
      cases heq
      have hrest := visitAll_ne_nil items hmem hvalid
      rw [visit.eq_def]
      split
      · simp
      · rename_i heq
        cases heq
        exact hrest
      · rename_i hno
        exact absurd rfl (hno _)
    · cases hmem
  | .null, _, hmem, _ => by simp [walk] at hmem
  | .bool _, _, hmem, _ => by simp [walk] at hmem
  | .num _, _, hmem, _ => by simp [walk] at hmem
  | .str _, _, hmem, _ => by simp [walk] at hmem
  | .obj _, _, hmem, _ => by simp [walk] at hmem

/-- Trees with a part of valid vertices have a position. -/
theorem visitAll_ne_nil : ∀ (trees : List Json) {part : List (Option ℚ × Option ℚ)},
    part ∈ walkAll trees → (∀ v ∈ part, (validVertex v).isSome = true) → visitAll trees ≠ []
  | [], _, hmem, _ => by simp [walkAll] at hmem
  | item :: items, part, hmem, hvalid => by
    rw [walkAll, List.mem_append] at hmem
    rcases hmem with hmem | hmem
    · exact visitAll_ne_nil_left (visit_ne_nil item hmem hvalid)
    · rw [visitAll]
      simp [visitAll_ne_nil items hmem hvalid]

end

/-- The positions of several lists of trees. -/
theorem visitAll_append (trees others : List Json) :
    visitAll (trees ++ others) = visitAll trees ++ visitAll others := by
  induction trees with
  | nil => rfl
  | cons tree trees ih => rw [List.cons_append, visitAll, visitAll, ih, List.append_assoc]

/-- A list read item by item reads each of its items. -/
theorem isSome_of_mapM {α β : Type} {f : α → Option β} :
    ∀ {xs : List α} {ys : List β}, xs.mapM f = some ys → ∀ x ∈ xs, (f x).isSome = true
  | [], _, _, _, hx => by cases hx
  | x :: xs, ys, h, z, hz => by
    rw [List.mapM_cons] at h
    cases hfx : f x with
    | none => simp [hfx] at h
    | some y =>
      cases hfxs : xs.mapM f with
      | none => simp [hfx, hfxs] at h
      | some zs =>
        rcases List.mem_cons.mp hz with rfl | hz
        · simp [hfx]
        · exact isSome_of_mapM hfxs z hz

/-- **A record with a shape has a point.** -/
theorem memberOf_ne_nil (C : Comparison) {record : Situation} {shape : Shape}
    (h : shapeOf record = some shape) : memberOf C record ≠ [] := by
  simp only [shapeOf, Option.bind_eq_some_iff] at h
  obtain ⟨geometry, hgeometry, h⟩ := h
  split_ifs at h with hparts
  rw [Option.bind_eq_some_iff] at h
  obtain ⟨parts, hvalid, -⟩ := h
  obtain ⟨part, rest, hcons⟩ := List.exists_cons_of_ne_nil hparts
  have hmem : part ∈ walkAll (shapeTrees geometry) := by rw [hcons]; exact List.mem_cons_self ..
  obtain ⟨vertices, hvertices⟩ := Option.isSome_iff_exists.mp (isSome_of_mapM hvalid part hmem)
  have htrees := visitAll_ne_nil (shapeTrees geometry) hmem (isSome_of_mapM hvertices)
  have hcoords : visitAll ((geometry.field "coordinates").toList ++
      (((geometry.field "geometries").bind Json.items).getD []).filterMap
        (Json.field "coordinates")) ≠ [] := by
    rw [visitAll_append]
    unfold shapeTrees at htrees
    cases hnested : (geometry.field "geometries").bind Json.items with
    | some nested =>
      rw [hnested] at htrees
      simp [htrees]
    | none =>
      rw [hnested] at htrees
      simp [htrees]
  simp only [memberOf, hgeometry, pointOf, Option.bind_some]
  rw [if_neg hcoords]
  simp

/-! ## The groups and the records behind them -/

/-- What holds of a group and the records folded into it: the record is built from them, they have
different sources, and the members name these, unless the group is a lone record without a
point. -/
structure Group.Keeps (g : Group) (records : List Situation) : Prop where
  folds : Folds g.record records
  apart : (records.map fun r => r.provenance.sourceId).Nodup
  named : (g.members.map Member.source).Perm (records.map fun r => r.provenance.sourceId) ∨
    (g.members = [] ∧ g.shape = none)

variable {C : Comparison} {g : Group} {record : Situation} {records : List Situation}

/-- The members with a record's own name its source too. -/
theorem named_memberOf (hmember : memberOf C record ≠ []) :
    (memberOf C record).map Member.source = [record.provenance.sourceId] := by
  unfold memberOf at hmember ⊢
  split
  · rfl
  · rename_i hnone
    rw [hnone] at hmember
    exact absurd rfl hmember

/-- A record of another source joins a group and is folded into its record. -/
theorem Group.Keeps.join (h : g.Keeps records) (hne : g.members ≠ [])
    (hother : ∀ member ∈ g.members, member.source ≠ record.provenance.sourceId)
    (hmember : memberOf C record ≠ []) : (g.join C record).Keeps (records ++ [record]) := by
  rcases h.named with hnamed | ⟨hnil, -⟩
  · refine ⟨h.folds.merge (.single record), ?_, Or.inl ?_⟩
    · rw [List.map_append, List.nodup_append]
      refine ⟨h.apart, List.nodup_singleton _, fun source hsource other hsame => ?_⟩
      rw [List.map_cons, List.map_nil, List.mem_singleton] at hsame
      obtain ⟨member, hmem, rfl⟩ := List.mem_map.mp (hnamed.symm.subset hsource)
      exact hsame ▸ hother member hmem
    · show ((g.members ++ memberOf C record).map Member.source).Perm _
      rw [List.map_append, List.map_append, named_memberOf hmember]
      exact hnamed.append_right _
  · exact absurd hnil hne

/-- A record of another source joins a group and takes the place of its record. -/
theorem Group.Keeps.replace (h : g.Keeps records) (hne : g.members ≠ [])
    (hother : ∀ member ∈ g.members, member.source ≠ record.provenance.sourceId)
    (hmember : memberOf C record ≠ []) (shape : Shape) :
    (g.replace C record shape).Keeps (record :: records) := by
  have hjoin := h.join hne hother hmember
  have hperm : (record :: records).Perm (records ++ [record]) :=
    (List.perm_append_singleton record records).symm
  refine ⟨Folds.merge (.single record) h.folds, ?_, Or.inl ?_⟩
  · exact (hperm.map _).nodup_iff.mpr hjoin.apart
  · rcases hjoin.named with hnamed | ⟨hnil, -⟩
    · exact hnamed.trans (hperm.map _).symm
    · exact absurd (List.append_eq_nil_iff.mp hnil).1 hne

/-! ## The run over the page -/

/-- What holds after some records of the page: each group keeps some of them, and the groups of a
meaning have members. -/
structure FoldInv (s : Folding) (folded : List (Group × List Situation)) (seen : List Situation) :
    Prop where
  groups : s.out = folded.map Prod.fst
  keeps : ∀ p ∈ folded, p.1.Keeps p.2
  all : (folded.flatMap Prod.snd).Perm seen
  placed : ∀ meaning order, order ∈ (s.byMeaning.get meaning).getD [] →
    ∃ g, s.out[order]? = some g ∧ g.members ≠ []

/-- The records behind the groups, when one group takes another record. -/
theorem flatMap_modify_perm {α β : Type} {f : α → List β} {change : α → α} {added : List β} :
    ∀ {xs : List α} {i : ℕ} {x : α}, xs[i]? = some x → (f (change x)).Perm (f x ++ added) →
      ((xs.modify i change).flatMap f).Perm (xs.flatMap f ++ added)
  | [], i, x, hx, _ => by simp at hx
  | y :: ys, 0, x, hx, hperm => by
    rw [List.getElem?_cons_zero, Option.some.injEq] at hx
    subst hx
    rw [List.modify_zero_cons, List.flatMap_cons, List.flatMap_cons, List.append_assoc]
    refine (hperm.append_right _).trans ?_
    rw [List.append_assoc]
    exact (List.perm_append_comm).append_left _
  | y :: ys, i + 1, x, hx, hperm => by
    rw [List.getElem?_cons_succ] at hx
    rw [List.modify_succ_cons, List.flatMap_cons, List.flatMap_cons, List.append_assoc]
    exact (flatMap_modify_perm hx hperm).append_left _

/-- Changing the groups alone is what changing them with the records behind them does to them. -/
theorem map_fst_modify {α β : Type} (f : α → α) (k : β → β) :
    ∀ (xs : List (α × β)) (i : ℕ),
      (xs.modify i (Prod.map f k)).map Prod.fst = (xs.map Prod.fst).modify i f
  | [], _ => by simp
  | x :: xs, 0 => by simp
  | x :: xs, i + 1 => by simp [map_fst_modify f k xs i]

variable {s : Folding} {folded : List (Group × List Situation)} {seen : List Situation}

/-- One group takes another record. -/
theorem FoldInv.modify (h : FoldInv s folded seen) {i : ℕ} (hg : s.out[i]? = some g)
    {change : Group → Group} {behind : List Situation → List Situation}
    (hkeeps : ∀ {records}, g.Keeps records → (change g).Keeps (behind records))
    (hbehind : ∀ records, (behind records).Perm (records ++ [record]))
    (hmembers : (change g).members ≠ []) (byCell : OrderedMap String (List ℕ)) :
    FoldInv { s with out := s.out.modify i change, byCell := byCell }
      (folded.modify i (Prod.map change behind)) (seen ++ [record]) := by
  have hpair : ∃ p, folded[i]? = some p ∧ p.1 = g := by
    rw [h.groups, List.getElem?_map, Option.map_eq_some_iff] at hg
    exact hg
  obtain ⟨p, hp, hpg⟩ := hpair
  refine ⟨?_, fun q hq => ?_, ?_, fun meaning order horder => ?_⟩
  · rw [map_fst_modify, h.groups]
  · rw [List.mem_iff_getElem?] at hq
    obtain ⟨j, hj⟩ := hq
    rw [List.getElem?_modify] at hj
    obtain ⟨q', hq', rfl⟩ := Option.map_eq_some_iff.mp hj
    have hmem : q' ∈ folded := List.mem_of_getElem? hq'
    by_cases hij : i = j
    · subst hij
      rw [if_pos rfl]
      have hqp : q' = p := Option.some.inj (hq'.symm.trans hp)
      subst hqp hpg
      exact hkeeps (h.keeps _ hmem)
    · rw [if_neg hij]
      exact h.keeps _ hmem
  · refine (flatMap_modify_perm hp ?_).trans (h.all.append_right _)
    exact hbehind p.2
  · obtain ⟨g₀, hg₀, hne⟩ := h.placed meaning order horder
    refine ⟨if i = order then change g₀ else g₀, ?_, ?_⟩
    · show (s.out.modify i change)[order]? = _
      rw [List.getElem?_modify, hg₀]
      rfl
    · by_cases hij : i = order
      · subst hij
        have hsame : g₀ = g := Option.some.inj (hg₀.symm.trans hg)
        subst hsame
        rwa [if_pos rfl]
      · rwa [if_neg hij]

/-- A record opens a group of its own. -/
theorem FoldInv.open (h : FoldInv s folded seen) (record : Situation) :
    FoldInv (s.open C record)
      (folded ++ [(⟨record, memberOf C record, shapeOf record, false⟩, [record])])
      (seen ++ [record]) := by
  refine ⟨?_, fun q hq => ?_, ?_, fun meaning order horder => ?_⟩
  · rw [List.map_append, ← h.groups]
    rfl
  · rcases List.mem_append.mp hq with hq | hq
    · exact h.keeps q hq
    · rw [List.mem_singleton] at hq
      subst hq
      refine ⟨.single record, List.nodup_singleton _, ?_⟩
      by_cases hmember : memberOf C record = []
      · refine Or.inr ⟨hmember, ?_⟩
        cases hshape : shapeOf record with
        | none => rfl
        | some shape => exact absurd hmember (memberOf_ne_nil C hshape)
      · refine Or.inl ?_
        show ((memberOf C record).map Member.source).Perm _
        rw [named_memberOf hmember]
        exact List.Perm.refl _
  · rw [List.flatMap_append]
    exact h.all.append (by simp)
  · have hout : (s.open C record).out =
        s.out ++ [⟨record, memberOf C record, shapeOf record, false⟩] := rfl
    rw [hout]
    have hold : order ∈ (s.byMeaning.get meaning).getD [] → ∃ g,
        (s.out ++ [⟨record, memberOf C record, shapeOf record, false⟩])[order]? = some g ∧
          g.members ≠ [] := by
      intro hmem
      obtain ⟨g, hg, hne⟩ := h.placed meaning order hmem
      have hlt : order < s.out.length := (List.getElem?_eq_some_iff.mp hg).1
      exact ⟨g, by rw [List.getElem?_append_left hlt, hg], hne⟩
    simp only [Folding.open] at horder
    split at horder
    · rename_i own point _ hpoint
      have hmember : memberOf C record ≠ [] := by
        unfold memberOf
        rw [hpoint]
        simp
      rw [OrderedMap.get_set] at horder
      split_ifs at horder with hmeaning
      · rw [Option.getD_some, List.mem_append, List.mem_singleton] at horder
        rcases horder with hmem | rfl
        · exact hold (hmeaning ▸ hmem)
        · exact ⟨_, List.getElem?_concat_length, hmember⟩
      · exact hold horder
    · exact hold horder

/-! ## One record -/

/-- The group a record joins by its meaning has members, all of other sources. -/
theorem survivorOf_eq_some (h : FoldInv s folded seen) {i : ℕ}
    (hfound : survivorOf C s record = some i) :
    ∃ g, s.out[i]? = some g ∧ g.members ≠ [] ∧
      (∀ member ∈ g.members, member.source ≠ record.provenance.sourceId) ∧
      memberOf C record ≠ [] := by
  unfold survivorOf at hfound
  split at hfound
  · rename_i point meaning hpoint hmeaning
    obtain ⟨g, hg, hne⟩ := h.placed meaning i (List.mem_of_find?_eq_some hfound)
    have hjoins := List.find?_some hfound
    simp only [hg, Option.any_some, Bool.and_eq_true, List.all_eq_true] at hjoins
    refine ⟨g, hg, hne, fun member hmem => ?_, ?_⟩
    · have hjoin := hjoins.2 member hmem
      simp only [joins, Bool.and_eq_true, decide_eq_true_eq] at hjoin
      exact hjoin.1
    · unfold memberOf
      rw [hpoint]
      simp
  · cases hfound

/-- The group of one measure with a record has members, all of other sources. -/
theorem sameMeasure_eq_some (h : FoldInv s folded seen) {shape : Shape} {i : ℕ}
    {survivor : Survivor} (hfound : sameMeasure C s record shape = some (i, survivor)) :
    ∃ g, s.out[i]? = some g ∧ g.members ≠ [] ∧
      ∀ member ∈ g.members, member.source ≠ record.provenance.sourceId := by
  unfold sameMeasure at hfound
  obtain ⟨j, -, hj⟩ := List.exists_of_findSome?_eq_some hfound
  simp only [Option.bind_eq_some_iff] at hj
  obtain ⟨g, hg, own, hown, hj⟩ := hj
  split_ifs at hj with hall
  obtain ⟨_, -, hsame⟩ := Option.map_eq_some_iff.mp hj
  cases hsame
  refine ⟨g, hg, fun hnil => ?_, ?_⟩
  · -- A group with a shape has members: only a lone record without a point has none.
    obtain ⟨p, hp, rfl⟩ : ∃ p, p ∈ folded ∧ p.1 = g := by
      rw [h.groups] at hg
      exact List.mem_map.mp (List.mem_of_getElem? hg)
    rcases (h.keeps p hp).named with hnamed | ⟨-, hnone⟩
    · have hfolds := (h.keeps p hp).folds
      rw [hnil, List.map_nil, List.nil_perm, List.map_eq_nil_iff] at hnamed
      rw [hnamed] at hfolds
      exact hfolds.ne_nil rfl
    · rw [hnone] at hown
      cases hown
  · intro member hmem
    exact of_decide_eq_true (List.all_eq_true.mp hall member hmem)

/-- **One record keeps the invariant.** -/
theorem FoldInv.add (h : FoldInv s folded seen) (record : Situation) :
    ∃ folded', FoldInv (s.add C record) folded' (seen ++ [record]) := by
  unfold Folding.add
  split
  · rename_i i hfound
    obtain ⟨g, hg, hne, hother, hmember⟩ := survivorOf_eq_some h hfound
    exact ⟨_, h.modify hg (fun hkeeps => hkeeps.join hne hother hmember)
      (fun _ => List.Perm.refl _) (by simp [Group.join, hne]) s.byCell⟩
  · split
    · exact ⟨_, h.open record⟩
    · rename_i shape hshape
      have hmember := memberOf_ne_nil C hshape
      split
      · exact ⟨_, h.open record⟩
      · rename_i i hfound
        obtain ⟨g, hg, hne, hother⟩ := sameMeasure_eq_some h hfound
        exact ⟨_, h.modify hg (fun hkeeps => hkeeps.join hne hother hmember)
          (fun _ => List.Perm.refl _) (by simp [Group.join, hne]) s.byCell⟩
      · rename_i i hfound
        obtain ⟨g, hg, hne, hother⟩ := sameMeasure_eq_some h hfound
        exact ⟨_, h.modify hg (fun hkeeps => hkeeps.replace hne hother hmember shape)
          (fun records => (List.perm_append_singleton record records).symm)
          (by simp [Group.replace, hne]) _⟩

/-- The invariant holds after every page. -/
theorem exists_foldInv (C : Comparison) (records : List Situation) :
    ∃ folded, FoldInv (records.foldl (Folding.add C) .start) folded records := by
  induction records using List.reverseRecOn with
  | nil =>
    refine ⟨[], rfl, fun p hp => ?_, List.Perm.refl _, fun meaning order horder => ?_⟩
    · cases hp
    · cases horder
  | append_singleton records record ih =>
    obtain ⟨folded, h⟩ := ih
    rw [List.foldl_concat]
    exact h.add record

/-- **A folded page keeps every credit and keeps sources apart**: its records credit, counted with
repetition, whom the records of the page credit, and each is built by merging from records of the
page with different sources, each of the page's records in exactly one of them. -/
theorem attributions_dedupeSituations (C : Comparison) (records : List Situation) :
    ((dedupeSituations C records).flatMap attributions).Perm (records.flatMap attributions) ∧
      ∃ folded : List (Situation × List Situation),
        dedupeSituations C records = folded.map Prod.fst ∧
        (folded.flatMap Prod.snd).Perm records ∧
        ∀ p ∈ folded, Folds p.1 p.2 ∧ (p.2.map fun r => r.provenance.sourceId).Nodup := by
  obtain ⟨folded, h⟩ := exists_foldInv C records
  have hout : dedupeSituations C records =
      (folded.map fun p => (p.1.record, p.2)).map Prod.fst := by
    rw [dedupeSituations, h.groups, List.map_map, List.map_map]
    rfl
  refine ⟨?_, folded.map fun p => (p.1.record, p.2), hout, ?_, fun p hp => ?_⟩
  · have hcredits : ((folded.map fun p => p.1.record).flatMap attributions).Perm
        ((folded.flatMap Prod.snd).flatMap attributions) := by
      rw [List.flatMap_map, List.flatMap_assoc]
      exact List.Perm.flatMap_left _ fun p hp => (h.keeps p hp).folds.attributions
    rw [hout, List.map_map]
    exact hcredits.trans (h.all.flatMap_right _)
  · rw [List.flatMap_map]
    exact h.all
  · obtain ⟨q, hq, rfl⟩ := List.mem_map.mp hp
    exact ⟨(h.keeps q hq).folds, (h.keeps q hq).apart⟩

end OpenConditions.Core

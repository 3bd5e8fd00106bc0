import OpenConditions.Roads.SegmentGraph
import Mathlib.Data.List.Chain
import Mathlib.Data.List.Induction
import Mathlib.Data.List.Nodup
import Mathlib.Tactic.Tauto

set_option relaxedAutoImplicit false
set_option autoImplicit false

/-!
# The search finds shortest paths

Every label of the search is the cost of a path that the labels before it trace back, and no path to a
segment that is done is shorter than its label.  The target is done, or nothing is open and no path
reaches it.

## Main definitions

* `IsRoute`, `routeCost` — the paths from one segment to another, and what they cost.
* `SearchInv` — what holds between the rounds of the search.

## Main results

* `search_spec` — the search ends with the target done or nothing open.
* `shortestPath_correct` — it finds a shortest path exactly when there is one within the length.
-/

namespace OpenConditions.Roads

open Walks

section Graph

variable {K : Type} {segments : List (SpineSegment K)}

/-! ## The segments of a graph -/

/-- A segment the graph holds: one of those loaded, with two coordinates. -/
def InGraph (segments : List (SpineSegment K)) (s : SpineSegment K) : Prop :=
  s ∈ segments ∧ 2 ≤ s.coords.length

/-- The graph once more segments are added. -/
theorem foldl_add (rest : List (SpineSegment K)) (graph : SegmentGraph K) :
    (rest.foldl SegmentGraph.add graph).segments =
        (rest.filter fun s => decide (2 ≤ s.coords.length)).foldl
          (fun m s => m.set s.segmentId s) graph.segments ∧
      ∀ k, ((rest.foldl SegmentGraph.add graph).outByStart.get k).getD [] =
        (graph.outByStart.get k).getD [] ++
          rest.filter fun s => decide (2 ≤ s.coords.length ∧ s.startKey = k) := by
  induction rest generalizing graph with
  | nil => simp
  | cons s rest ih =>
    obtain ⟨hsegments, hout⟩ := ih (graph.add s)
    rw [List.foldl_cons]
    by_cases hs : s.coords.length < 2
    · have hadd : graph.add s = graph := by rw [SegmentGraph.add, if_pos hs]
      rw [hadd] at hsegments hout ⊢
      refine ⟨?_, fun k => ?_⟩
      · rw [hsegments, List.filter_cons_of_neg (by simpa using hs)]
      · rw [hout, List.filter_cons_of_neg (by simp; omega)]
    · have hadd : graph.add s =
          ⟨graph.segments.set s.segmentId s,
            graph.outByStart.set s.startKey ((graph.outByStart.get s.startKey).getD [] ++ [s]),
            graph.inByEnd.set s.endKey ((graph.inByEnd.get s.endKey).getD [] ++ [s])⟩ := by
        rw [SegmentGraph.add, if_neg hs]
      rw [hadd] at hsegments hout ⊢
      have hlong : 2 ≤ s.coords.length := by omega
      refine ⟨?_, fun k => ?_⟩
      · rw [hsegments, List.filter_cons_of_pos (by simpa using hlong), List.foldl_cons]
      · rw [hout]
        by_cases hk : k = s.startKey
        · subst hk
          rw [OrderedMap.get_set_self, List.filter_cons_of_pos (by simpa using hlong)]
          simp
        · rw [OrderedMap.get_set_of_ne _ _ hk,
            List.filter_cons_of_neg (by simpa [hlong] using Ne.symm hk)]

/-- A graph finds its segments by their ids. -/
theorem byId_of (hids : (segments.map SpineSegment.segmentId).Nodup) {id : String}
    {s : SpineSegment K} :
    (SegmentGraph.of segments).byId id = some s ↔ InGraph segments s ∧ s.segmentId = id := by
  unfold SegmentGraph.byId SegmentGraph.of
  rw [(foldl_add segments _).1]
  set long := segments.filter fun s => decide (2 ≤ s.coords.length) with hlong
  have hmem : ∀ {a}, a ∈ long ↔ InGraph segments a := fun {a} => by
    rw [hlong, List.mem_filter, decide_eq_true_iff, InGraph]
  have hget : ∀ {a}, a ∈ long → (long.foldl (fun m s => m.set s.segmentId s)
      (OrderedMap.empty : OrderedMap String (SpineSegment K))).get a.segmentId = some a := by
    intro a ha
    obtain ⟨w, hw, rfl⟩ := @OrderedMap.get_foldl_set_of_mem String (SpineSegment K) _ _
      SpineSegment.segmentId (fun _ s => s) long a.segmentId (fun w => w = a)
      (List.mem_map_of_mem ha) .empty fun _ c hc hkey =>
        List.inj_on_of_nodup_map hids (hmem.mp hc).1 (hmem.mp ha).1 hkey
    exact hw
  constructor
  · intro h
    by_cases hid : id ∈ long.map SpineSegment.segmentId
    · obtain ⟨a, ha, rfl⟩ := List.mem_map.mp hid
      rw [hget ha, Option.some_inj] at h
      subst h
      exact ⟨hmem.mp ha, rfl⟩
    · rw [@OrderedMap.get_foldl_set_of_not_mem String (SpineSegment K) _ _
        SpineSegment.segmentId (fun _ s => s) long id hid .empty] at h
      cases h
  · rintro ⟨hin, rfl⟩
    exact hget (hmem.mpr hin)

/-- What follows a segment. -/
theorem mem_successors (hids : (segments.map SpineSegment.segmentId).Nodup)
    {a n : SpineSegment K} (ha : InGraph segments a) :
    n ∈ (SegmentGraph.of segments).successors a.segmentId ↔
      InGraph segments n ∧ a.endKey = n.startKey ∧ n.segmentId ≠ a.segmentId := by
  have hget : (SegmentGraph.of segments).segments.get a.segmentId = some a :=
    (byId_of hids).mpr ⟨ha, rfl⟩
  unfold SegmentGraph.successors
  rw [hget]
  dsimp only
  rw [SegmentGraph.of, (foldl_add segments _).2, List.mem_filter, OrderedMap.get_empty,
    Option.getD_none, List.nil_append, List.mem_filter, decide_eq_true_iff, decide_eq_true_iff,
    InGraph, eq_comm (a := a.endKey)]
  tauto

/-! ## Routes -/

/-- A path from one segment to another: each starts where the one before it ends, and those after the
first are allowed. -/
structure IsRoute (segments : List (SpineSegment K)) (allow : SpineSegment K → Bool)
    (first target : String) (path : List (SpineSegment K)) : Prop where
  head : path.head?.map SpineSegment.segmentId = some first
  last : path.getLast?.map SpineSegment.segmentId = some target
  inGraph : ∀ s ∈ path, InGraph segments s
  adjacent : path.IsChain fun a b => a.endKey = b.startKey
  allowed : ∀ s ∈ path.tail, allow s = true

/-- What a path costs: the lengths of the segments after its first. -/
def routeCost [LinearOrder K] (A : LengthSum K) (path : List (SpineSegment K)) : K :=
  cost A SpineSegment.lengthM path.tail

/-- One segment follows another in a route. -/
structure Follows (segments : List (SpineSegment K)) (allow : SpineSegment K → Bool)
    (a b : SpineSegment K) : Prop where
  source : InGraph segments a
  target : InGraph segments b
  meets : a.endKey = b.startKey
  allowed : allow b = true

variable {allow : SpineSegment K → Bool} {first target : String}

/-- A route that goes on. -/
theorem IsRoute.concat {path : List (SpineSegment K)} {a b : SpineSegment K}
    (h : IsRoute segments allow first target path) (ha : path.getLast? = some a)
    (hab : Follows segments allow a b) :
    IsRoute segments allow first b.segmentId (path ++ [b]) := by
  obtain ⟨s, rest, rfl⟩ : ∃ s rest, path = s :: rest := by
    cases path with
    | nil => cases ha
    | cons s rest => exact ⟨s, rest, rfl⟩
  refine ⟨h.head, ?_, fun n hn => ?_, ?_, fun n hn => ?_⟩
  · rw [List.getLast?_append_of_ne_nil _ (List.cons_ne_nil _ _), List.getLast?_singleton,
      Option.map_some]
  · rcases List.mem_append.mp hn with hn | hn
    · exact h.inGraph n hn
    · rw [List.mem_singleton.mp hn]
      exact hab.target
  · refine List.isChain_append.mpr ⟨h.adjacent, List.isChain_singleton _, ?_⟩
    intro x hx y hy
    rw [ha] at hx
    obtain rfl := Option.some.inj hx
    obtain rfl := Option.some.inj hy
    exact hab.meets
  · rw [List.cons_append, List.tail_cons] at hn
    rcases List.mem_append.mp hn with hn | hn
    · exact h.allowed n hn
    · rw [List.mem_singleton.mp hn]
      exact hab.allowed

/-- A route is a walk from its first segment. -/
theorem IsRoute.walk {path : List (SpineSegment K)} {s t : SpineSegment K}
    (h : IsRoute segments allow first target (s :: path)) (ht : (s :: path).getLast? = some t) :
    Walk (Follows segments allow) s t path := by
  induction path using List.reverseRecOn generalizing target t with
  | nil =>
    obtain rfl := Option.some.inj ht
    exact .nil
  | append_singleton path b ih =>
    rw [← List.cons_append, List.getLast?_append_of_ne_nil _ (List.cons_ne_nil _ _),
      List.getLast?_singleton, Option.some_inj] at ht
    subst ht
    rw [← List.cons_append] at h
    obtain ⟨a, ha⟩ : ∃ a, (s :: path).getLast? = some a :=
      Option.isSome_iff_exists.mp (by simp)
    obtain ⟨hchain, -, hmeet⟩ := List.isChain_append.mp h.adjacent
    have hbefore : IsRoute segments allow first a.segmentId (s :: path) :=
      ⟨h.head, by rw [ha]; rfl, fun n hn => h.inGraph n (List.mem_append_left _ hn), hchain,
        fun n hn => h.allowed n (by
          rw [List.cons_append, List.tail_cons]
          exact List.mem_append_left _ hn)⟩
    refine (ih hbefore ha).concat ⟨?_, ?_, ?_, ?_⟩
    · exact hbefore.inGraph a (List.mem_of_getLast? ha)
    · exact h.inGraph b (by simp)
    · exact hmeet a ha b rfl
    · exact h.allowed b (by simp)

/-! ## One round -/

section Search

variable [LinearOrder K] {A : LengthSum K} {cap : K} {s : SpineSegment K} {st st' : SearchState K}

/-- The nearest segment so far, or the next one where it is nearer. -/
def nearer (st : SearchState K) (best : Option (String × K)) (id : String) : Option (String × K) :=
  match st.dist.get id with
  | some d => if best.all fun b => decide (d < b.2) then some (id, d) else best
  | none => best

/-- The nearest of some segments: one of them with its label, where any is labelled, and no other
label is smaller. -/
structure IsNearest (st : SearchState K) (ids : List String) (best : Option (String × K)) :
    Prop where
  found : ∀ b ∈ best, b.1 ∈ ids ∧ st.dist.get b.1 = some b.2
  least : ∀ id ∈ ids, ∀ d, st.dist.get id = some d → ∃ b ∈ best, b.2 ≤ d

/-- The nearest of some segments and the next. -/
theorem IsNearest.nearer {ids : List String} {best : Option (String × K)}
    (h : IsNearest st ids best) (id : String) : IsNearest st (ids ++ [id]) (nearer st best id) := by
  have hkeep : ∀ b ∈ best, b.1 ∈ ids ++ [id] ∧ st.dist.get b.1 = some b.2 := fun b hb =>
    ⟨List.mem_append_left _ (h.found b hb).1, (h.found b hb).2⟩
  unfold Roads.nearer
  cases hd : st.dist.get id with
  | none =>
    refine ⟨hkeep, fun v hv d hvd => ?_⟩
    rcases List.mem_append.mp hv with hv | hv
    · exact h.least v hv d hvd
    · rw [List.mem_singleton.mp hv, hd] at hvd
      cases hvd
  | some d =>
    dsimp only
    split_ifs with hless
    · refine ⟨fun b hb => ?_, fun v hv d' hvd => ⟨(id, d), rfl, ?_⟩⟩
      · obtain rfl := Option.some.inj hb
        exact ⟨List.mem_append_right _ (List.mem_singleton_self _), hd⟩
      · rcases List.mem_append.mp hv with hv | hv
        · obtain ⟨b, hb, hle⟩ := h.least v hv d' hvd
          rw [Option.mem_def.mp hb, Option.all_some] at hless
          exact (of_decide_eq_true hless).le.trans hle
        · rw [List.mem_singleton.mp hv] at hvd
          exact (Option.some.inj (hd.symm.trans hvd)).le
    · refine ⟨hkeep, fun v hv d' hvd => ?_⟩
      rcases List.mem_append.mp hv with hv | hv
      · exact h.least v hv d' hvd
      · rw [List.mem_singleton.mp hv] at hvd
        obtain rfl := Option.some.inj (hd.symm.trans hvd)
        cases best with
        | none => exact absurd rfl hless
        | some b =>
          rw [Option.all_some, decide_eq_true_iff, not_lt] at hless
          exact ⟨b, rfl, hless⟩

/-- **The nearest of the open segments.** -/
theorem isNearest_nearest (st : SearchState K) : IsNearest st st.opened (nearest st) := by
  have hfold : ∀ ids : List String, IsNearest st ids (ids.foldl (nearer st) none) := by
    intro ids
    induction ids using List.reverseRecOn with
    | nil =>
      exact ⟨fun b hb => absurd hb (by simp), fun id hid => absurd hid List.not_mem_nil⟩
    | append_singleton ids id ih =>
      rw [List.foldl_append]
      exact ih.nearer id
  exact hfold st.opened

/-- An open segment with the smallest label. -/
theorem nearest_eq_some {cur : String} {best : K} (h : nearest st = some (cur, best)) :
    cur ∈ st.opened ∧ st.dist.get cur = some best ∧
      ∀ v ∈ st.opened, ∀ d, st.dist.get v = some d → best ≤ d := by
  have hnearest := isNearest_nearest st
  rw [h] at hnearest
  obtain ⟨hopen, hbest⟩ := hnearest.found _ rfl
  refine ⟨hopen, hbest, fun v hv d hvd => ?_⟩
  obtain ⟨b, hb, hle⟩ := hnearest.least v hv d hvd
  obtain rfl := Option.some.inj hb
  exact hle

/-- Nothing open is labelled where no segment is the nearest. -/
theorem nearest_eq_none (h : nearest st = none) : ∀ v ∈ st.opened, st.dist.get v = none := by
  have hnearest := isNearest_nearest st
  rw [h] at hnearest
  intro v hv
  cases hvd : st.dist.get v with
  | none => rfl
  | some d =>
    obtain ⟨b, hb, -⟩ := hnearest.least v hv d hvd
    cases hb

variable (allow A cap) in
/-- What labelling some segments that follow one does. -/
structure Relaxes (cur : String) (best : K) (nexts : List (SpineSegment K))
    (st st' : SearchState K) : Prop where
  done : st'.done = st.done
  less : ∀ v d, st.dist.get v = some d → ∃ d', st'.dist.get v = some d' ∧ d' ≤ d
  kept : ∀ v ∈ st.done, st'.dist.get v = st.dist.get v ∧ st'.prev.get v = st.prev.get v
  found : ∀ v d, st'.dist.get v = some d →
    (st.dist.get v = some d ∧ st'.prev.get v = st.prev.get v) ∨
      ∃ b ∈ nexts, b.segmentId = v ∧ allow b = true ∧ d = A.add best b.lengthM ∧ d ≤ cap ∧
        st'.prev.get v = some cur
  reached : ∀ b ∈ nexts, allow b = true → b.segmentId ∉ st.done → A.add best b.lengthM ≤ cap →
    ∃ d, st'.dist.get b.segmentId = some d ∧ d ≤ A.add best b.lengthM
  opened : (∀ v, v ∈ st.opened ↔ (st.dist.get v).isSome = true ∧ v ∉ st.done) →
    ∀ v, v ∈ st'.opened ↔ (st'.dist.get v).isSome = true ∧ v ∉ st'.done

/-- Nothing changes. -/
theorem Relaxes.refl (cur : String) (best : K) {nexts : List (SpineSegment K)}
    (hnexts : ∀ b ∈ nexts, allow b = true → b.segmentId ∉ st.done → A.add best b.lengthM ≤ cap →
      ∃ d, st.dist.get b.segmentId = some d ∧ d ≤ A.add best b.lengthM) :
    Relaxes allow A cap cur best nexts st st where
  done := rfl
  less _ d hd := ⟨d, hd, le_rfl⟩
  kept _ _ := ⟨rfl, rfl⟩
  found _ _ hd := Or.inl ⟨hd, rfl⟩
  reached := hnexts
  opened h := h

/-- **One segment** is labelled. -/
theorem relax_relaxes (cur : String) (best : K) (next : SpineSegment K) :
    Relaxes allow A cap cur best [next] st (relax A cap allow cur best st next) := by
  unfold relax
  by_cases hskip : next.segmentId ∈ st.done ∨ allow next = false
  · rw [if_pos hskip]
    refine .refl cur best fun b hb hallow hdone _ => ?_
    rw [List.mem_singleton.mp hb] at hallow hdone
    rcases hskip with hskip | hskip
    · exact absurd hskip hdone
    · rw [hallow] at hskip
      cases hskip
  rw [if_neg hskip]
  dsimp only
  by_cases hcap : cap < A.add best next.lengthM
  · rw [if_pos hcap]
    refine .refl cur best fun b hb _ _ hle => ?_
    rw [List.mem_singleton.mp hb] at hle
    exact absurd hle (not_le.mpr hcap)
  rw [if_neg hcap]
  by_cases hless : (st.dist.get next.segmentId).all
      (fun d => decide (A.add best next.lengthM < d)) = true
  · rw [if_pos hless]
    rw [not_or, Bool.not_eq_false] at hskip
    refine ⟨rfl, fun v d hd => ?_, fun v hv => ?_, fun v d hd => ?_, fun b hb _ _ _ => ?_,
      fun h v => ?_⟩
    · by_cases hv : v = next.segmentId
      · subst hv
        rw [hd, Option.all_some, decide_eq_true_iff] at hless
        exact ⟨_, OrderedMap.get_set_self _ _ _, hless.le⟩
      · exact ⟨d, by rw [OrderedMap.get_set_of_ne _ _ hv, hd], le_rfl⟩
    · have hne : v ≠ next.segmentId := by
        rintro rfl
        exact hskip.1 hv
      exact ⟨OrderedMap.get_set_of_ne _ _ hne, OrderedMap.get_set_of_ne _ _ hne⟩
    · by_cases hv : v = next.segmentId
      · subst hv
        rw [OrderedMap.get_set_self, Option.some_inj] at hd
        exact Or.inr ⟨next, List.mem_singleton_self _, rfl, hskip.2, hd.symm, hd ▸ not_lt.mp hcap,
          OrderedMap.get_set_self _ _ _⟩
      · rw [OrderedMap.get_set_of_ne _ _ hv] at hd
        exact Or.inl ⟨hd, OrderedMap.get_set_of_ne _ _ hv⟩
    · rw [List.mem_singleton.mp hb]
      exact ⟨_, OrderedMap.get_set_self _ _ _, le_rfl⟩
    · have hopened : v ∈ (if next.segmentId ∈ st.opened then st.opened
          else st.opened ++ [next.segmentId]) ↔ v ∈ st.opened ∨ v = next.segmentId := by
        split_ifs with hopen
        · exact ⟨Or.inl, fun hv => hv.elim id fun heq => heq ▸ hopen⟩
        · rw [List.mem_append, List.mem_singleton]
      rw [hopened, h v]
      by_cases hv : v = next.segmentId
      · subst hv
        simp only [OrderedMap.get_set_self, Option.isSome_some, true_and, or_true, true_iff]
        exact hskip.1
      · simp only [OrderedMap.get_set_of_ne _ _ hv, hv, or_false]
  · rw [if_neg hless]
    refine .refl cur best fun b hb _ _ _ => ?_
    rw [List.mem_singleton.mp hb]
    cases hd : st.dist.get next.segmentId with
    | none => exact absurd (by rw [hd]; rfl) hless
    | some d =>
      rw [hd, Option.all_some, decide_eq_true_iff, not_lt] at hless
      exact ⟨d, rfl, hless⟩

/-- More segments are labelled after some. -/
theorem Relaxes.trans {cur : String} {best : K} {nexts more : List (SpineSegment K)}
    {st'' : SearchState K} (h : Relaxes allow A cap cur best nexts st st')
    (h' : Relaxes allow A cap cur best more st' st'') :
    Relaxes allow A cap cur best (nexts ++ more) st st'' where
  done := h'.done.trans h.done
  less v d hd := by
    obtain ⟨d', hd', hle⟩ := h.less v d hd
    obtain ⟨d'', hd'', hle'⟩ := h'.less v d' hd'
    exact ⟨d'', hd'', hle'.trans hle⟩
  kept v hv := by
    obtain ⟨hdist, hprev⟩ := h.kept v hv
    obtain ⟨hdist', hprev'⟩ := h'.kept v (h.done ▸ hv)
    exact ⟨hdist'.trans hdist, hprev'.trans hprev⟩
  found v d hd := by
    rcases h'.found v d hd with ⟨hold, hprev⟩ | ⟨b, hb, hnew⟩
    · rcases h.found v d hold with ⟨hold', hprev'⟩ | ⟨b, hb, hid, hallow, hsum, hle, hprev'⟩
      · exact Or.inl ⟨hold', hprev.trans hprev'⟩
      · exact Or.inr ⟨b, List.mem_append_left _ hb, hid, hallow, hsum, hle, hprev.trans hprev'⟩
    · exact Or.inr ⟨b, List.mem_append_right _ hb, hnew⟩
  reached b hb hallow hdone hle := by
    rcases List.mem_append.mp hb with hb | hb
    · obtain ⟨d, hd, hdle⟩ := h.reached b hb hallow hdone hle
      obtain ⟨d', hd', hle'⟩ := h'.less _ d hd
      exact ⟨d', hd', hle'.trans hdle⟩
    · exact h'.reached b hb hallow (h.done ▸ hdone) hle
  opened hopen := h'.opened (h.opened hopen)

/-- **The segments that follow one** are labelled. -/
theorem foldl_relax_relaxes (cur : String) (best : K) (nexts : List (SpineSegment K)) :
    ∀ st : SearchState K,
      Relaxes allow A cap cur best nexts st (nexts.foldl (relax A cap allow cur best) st) := by
  induction nexts with
  | nil => exact fun st => .refl cur best fun b hb => absurd hb List.not_mem_nil
  | cons next nexts ih => exact fun st => (relax_relaxes cur best next).trans (ih _)

/-! ## Rounds -/

/-- The segments that are done, the last one first, trace back to the first. -/
def Traced (prev : OrderedMap String String) (first : String) : List String → Prop
  | [] => True
  | v :: vs => Traced prev first vs ∧ (v = first ∨ ∃ u ∈ vs, prev.get v = some u)

/-- The first is among them. -/
theorem Traced.first_mem {prev : OrderedMap String String} {first : String} :
    ∀ {vs : List String}, Traced prev first vs → vs ≠ [] → first ∈ vs
  | [], _, hne => absurd rfl hne
  | v :: vs, h, _ => by
    rcases h.2 with rfl | ⟨u, hu, -⟩
    · exact List.mem_cons_self
    · exact List.mem_cons_of_mem _ (h.1.first_mem (List.ne_nil_of_mem hu))

/-- What traces them back stays the same. -/
theorem Traced.congr {prev prev' : OrderedMap String String} {first : String} :
    ∀ {vs : List String}, Traced prev first vs → (∀ v ∈ vs, prev'.get v = prev.get v) →
      Traced prev' first vs
  | [], _, _ => trivial
  | v :: vs, h, hsame => by
    refine ⟨h.1.congr fun w hw => hsame w (List.mem_cons_of_mem _ hw), h.2.imp id ?_⟩
    rintro ⟨u, hu, hprev⟩
    exact ⟨u, hu, (hsame v List.mem_cons_self).trans hprev⟩

variable (segments allow A cap s) in
/-- What holds of a search from `s` between its rounds. -/
structure SearchInv (st : SearchState K) : Prop where
  source : st.dist.get s.segmentId = some A.zero
  /-- A label is the cost of a path that goes on from a segment that is done. -/
  found : ∀ v d, st.dist.get v = some d → (v = s.segmentId ∧ d = A.zero) ∨
    ∃ a b da, st.prev.get v = some a.segmentId ∧ a.segmentId ∈ st.done ∧
      st.dist.get a.segmentId = some da ∧ b.segmentId = v ∧ Follows segments allow a b ∧
        d = A.add da b.lengthM ∧ d ≤ cap
  opened : ∀ v, v ∈ st.opened ↔ (st.dist.get v).isSome = true ∧ v ∉ st.done
  labelled : ∀ v ∈ st.done, ∃ d, st.dist.get v = some d
  traced : Traced st.prev s.segmentId st.done
  nodup : st.done.Nodup
  optimal : ∀ t d vs, t.segmentId ∈ st.done → st.dist.get t.segmentId = some d →
    Walk (Follows segments allow) s t vs → cost A SpineSegment.lengthM vs ≤ cap →
      d ≤ cost A SpineSegment.lengthM vs

variable (segments allow A cap) in
/-- What follows a segment that is done, other than one that is not labelled yet, is labelled. -/
def RelaxedBut (cur : Option String) (st : SearchState K) : Prop :=
  ∀ a b d, Follows segments allow a b → a.segmentId ∈ st.done → cur ≠ some a.segmentId →
    st.dist.get a.segmentId = some d → b.segmentId ∉ st.done → A.add d b.lengthM ≤ cap →
      ∃ db, st.dist.get b.segmentId = some db ∧ db ≤ A.add d b.lengthM

/-- The labels say that what is done is settled. -/
theorem SearchInv.settled (h : SearchInv segments allow A cap s st)
    (hr : RelaxedBut segments allow A cap none st) :
    Settled A SpineSegment.lengthM (Follows segments allow) s cap
      (fun t => st.dist.get t.segmentId) fun t => t.segmentId ∈ st.done where
  relaxed a d ha hd b hab hb hle := hr a b d hab ha (by simp) hd hb hle
  optimal t ht := by
    obtain ⟨d, hd⟩ := h.labelled _ ht
    exact ⟨d, hd, fun vs hwalk hcap => h.optimal t d vs ht hd hwalk hcap⟩

/-- No segment of the graph has a negative length. -/
theorem nonneg_of_follows (hlen : ∀ n ∈ segments, A.zero ≤ n.lengthM) :
    ∀ a b, Follows segments allow a b → A.zero ≤ b.lengthM :=
  fun _ b hab => hlen b hab.target.1

/-- **Settling** an open segment with the smallest label. -/
theorem SearchInv.settle (hlen : ∀ n ∈ segments, A.zero ≤ n.lengthM)
    (h : SearchInv segments allow A cap s st) (hr : RelaxedBut segments allow A cap none st)
    {cur : String} {best : K} (hnearest : nearest st = some (cur, best)) :
    SearchInv segments allow A cap s (st.settle cur) ∧
      RelaxedBut segments allow A cap (some cur) (st.settle cur) ∧ cur ∉ st.done ∧
        st.dist.get cur = some best := by
  obtain ⟨hopen, hbest, hmin⟩ := nearest_eq_some hnearest
  have hnew : cur ∉ st.done := ((h.opened cur).mp hopen).2
  refine ⟨⟨h.source, fun v d hd => ?_, fun v => ?_, fun v hv => ?_, ?_, ?_, ?_⟩, ?_, hnew, hbest⟩
  · rcases h.found v d hd with hfirst | ⟨a, b, da, hprev, ha, hrest⟩
    · exact Or.inl hfirst
    · exact Or.inr ⟨a, b, da, hprev, List.mem_cons_of_mem _ ha, hrest⟩
  · simp only [SearchState.settle, List.mem_filter, decide_eq_true_iff, h.opened v, List.mem_cons,
      not_or]
    tauto
  · rcases List.mem_cons.mp hv with rfl | hv
    · exact ⟨best, hbest⟩
    · exact h.labelled v hv
  · refine ⟨h.traced, ?_⟩
    rcases h.found cur best hbest with ⟨heq, -⟩ | ⟨a, b, da, hprev, ha, -⟩
    · exact Or.inl heq
    · exact Or.inr ⟨_, ha, hprev⟩
  · exact List.nodup_cons.mpr ⟨hnew, h.nodup⟩
  · intro t d vs ht hd hwalk hcap
    rcases List.mem_cons.mp ht with ht | ht
    · rw [show (st.settle cur).dist = st.dist from rfl, ht, hbest, Option.some_inj] at hd
      subst hd
      by_cases hfirst : s.segmentId ∈ st.done
      · refine (h.settled hr).settle (nonneg_of_follows hlen) hfirst (by rw [ht]; exact hnew)
          (fun y d hy hd => ?_) hwalk hcap
        exact hmin _ ((h.opened _).mpr ⟨by rw [hd]; rfl, hy⟩) d hd
      · -- Nothing is done yet, so the first segment is the one that is settled.
        have hnil : st.done = [] := by
          by_contra hne
          exact hfirst (h.traced.first_mem hne)
        rcases h.found cur best hbest with ⟨-, rfl⟩ | ⟨a, b, da, -, ha, -⟩
        · refine zero_le_cost A _ vs fun v hv => ?_
          obtain ⟨u, huv⟩ := hwalk.entered v hv
          exact nonneg_of_follows hlen u v huv
        · rw [hnil] at ha
          cases ha
    · exact h.optimal t d vs ht hd hwalk hcap
  · intro a b d hab ha hcur hd hb hle
    have ha' : a.segmentId ∈ st.done := by
      rcases List.mem_cons.mp ha with heq | ha
      · exact absurd (congrArg some heq.symm) hcur
      · exact ha
    exact hr a b d hab ha' (by simp) hd (fun hb' => hb (List.mem_cons_of_mem _ hb')) hle

/-- **Labelling** what follows the segment that is settled. -/
theorem SearchInv.relax (hids : (segments.map SpineSegment.segmentId).Nodup)
    {cur : SpineSegment K} {best : K} (hcur : InGraph segments cur)
    (h : SearchInv segments allow A cap s st)
    (hr : RelaxedBut segments allow A cap (some cur.segmentId) st)
    (hdone : cur.segmentId ∈ st.done) (hbest : st.dist.get cur.segmentId = some best)
    (hrel : Relaxes allow A cap cur.segmentId best
      ((SegmentGraph.of segments).successors cur.segmentId) st st') :
    SearchInv segments allow A cap s st' ∧ RelaxedBut segments allow A cap none st' := by
  have hfirst : s.segmentId ∈ st.done :=
    h.traced.first_mem (List.ne_nil_of_mem hdone)
  refine ⟨⟨?_, fun v d hd => ?_, hrel.opened h.opened, fun v hv => ?_, ?_, ?_, ?_⟩, ?_⟩
  · rw [(hrel.kept _ hfirst).1, h.source]
  · rcases hrel.found v d hd with ⟨hold, hprev⟩ | ⟨b, hb, hid, hallow, hsum, hle, hprev⟩
    · rcases h.found v d hold with heq | ⟨a, b, da, hprev', ha, hda, hrest⟩
      · exact Or.inl heq
      · exact Or.inr ⟨a, b, da, hprev.trans hprev', hrel.done ▸ ha,
          (hrel.kept _ ha).1.trans hda, hrest⟩
    · obtain ⟨hin, hmeets, -⟩ := (mem_successors hids hcur).mp hb
      exact Or.inr ⟨cur, b, best, hprev, hrel.done ▸ hdone, (hrel.kept _ hdone).1.trans hbest, hid,
        ⟨hcur, hin, hmeets, hallow⟩, hsum, hle⟩
  · rw [hrel.done] at hv
    obtain ⟨d, hd⟩ := h.labelled v hv
    exact ⟨d, (hrel.kept v hv).1.trans hd⟩
  · rw [hrel.done]
    exact h.traced.congr fun v hv => (hrel.kept v hv).2
  · rw [hrel.done]
    exact h.nodup
  · intro t d vs ht hd hwalk hcap
    rw [hrel.done] at ht
    exact h.optimal t d vs ht ((hrel.kept _ ht).1 ▸ hd) hwalk hcap
  · intro a b d hab ha _ hd hb hle
    rw [hrel.done] at ha hb
    rw [(hrel.kept _ ha).1] at hd
    by_cases hsame : a.segmentId = cur.segmentId
    · obtain rfl : a = cur := List.inj_on_of_nodup_map hids hab.source.1 hcur.1 hsame
      rw [hbest, Option.some_inj] at hd
      subst hd
      have hne : b.segmentId ≠ a.segmentId := fun heq => hb (heq ▸ hdone)
      exact hrel.reached b ((mem_successors hids hcur).mpr ⟨hab.target, hab.meets, hne⟩)
        hab.allowed hb hle
    · obtain ⟨db, hdb, hdble⟩ := hr a b d hab ha
        (fun heq => hsame (Option.some.inj heq).symm) hd hb hle
      obtain ⟨d', hd', hle'⟩ := hrel.less _ db hdb
      exact ⟨d', hd', hle'.trans hdble⟩

/-- What is done is in the graph. -/
theorem SearchInv.inGraph (hs : InGraph segments s) (h : SearchInv segments allow A cap s st)
    {v : String} (hv : v ∈ st.done) : ∃ t, InGraph segments t ∧ t.segmentId = v := by
  obtain ⟨d, hd⟩ := h.labelled v hv
  rcases h.found v d hd with ⟨rfl, -⟩ | ⟨a, b, da, -, -, -, hid, hab, -⟩
  · exact ⟨s, hs, rfl⟩
  · exact ⟨b, hab.target, hid⟩

/-- No more is done than there is. -/
theorem SearchInv.length_done_le (hids : (segments.map SpineSegment.segmentId).Nodup)
    (hs : InGraph segments s) (h : SearchInv segments allow A cap s st) :
    st.done.length ≤ (SegmentGraph.of segments).segments.size := by
  have hsub : st.done ⊆ (SegmentGraph.of segments).segments.keys := by
    intro v hv
    obtain ⟨t, ht, hid⟩ := h.inGraph hs hv
    have hget := (byId_of hids).mpr ⟨ht, hid⟩
    exact List.mem_map.mpr ⟨_, (OrderedMap.get_eq_some_iff _).mp hget, rfl⟩
  have hle := (List.subperm_of_subset h.nodup hsub).length_le
  rwa [OrderedMap.keys, List.length_map] at hle

/-- **The search** ends with the target done or nothing open. -/
theorem search_spec (hids : (segments.map SpineSegment.segmentId).Nodup)
    (hlen : ∀ n ∈ segments, A.zero ≤ n.lengthM) (hs : InGraph segments s) {target : String} :
    ∀ {fuel : ℕ} {st : SearchState K}, SearchInv segments allow A cap s st →
      RelaxedBut segments allow A cap none st →
      (SegmentGraph.of segments).segments.size < fuel + st.done.length →
      SearchInv segments allow A cap s
          (search A (SegmentGraph.of segments) target cap allow fuel st) ∧
        (target ∈ (search A (SegmentGraph.of segments) target cap allow fuel st).done ∨
          (RelaxedBut segments allow A cap none
              (search A (SegmentGraph.of segments) target cap allow fuel st) ∧
            ∀ v d, (search A (SegmentGraph.of segments) target cap allow fuel st).dist.get v =
              some d → v ∈ (search A (SegmentGraph.of segments) target cap allow fuel st).done)) := by
  intro fuel
  induction fuel with
  | zero =>
    intro st h _ hfuel
    have := h.length_done_le hids hs
    omega
  | succ fuel ih =>
    intro st h hr hfuel
    cases hnearest : nearest st with
    | none =>
      have hend : search A (SegmentGraph.of segments) target cap allow (fuel + 1) st = st := by
        simp only [search, hnearest]
      rw [hend]
      refine ⟨h, Or.inr ⟨hr, fun v d hd => ?_⟩⟩
      by_contra hv
      rw [nearest_eq_none hnearest v ((h.opened v).mpr ⟨by rw [hd]; rfl, hv⟩)] at hd
      cases hd
    | some found =>
      obtain ⟨cur, best⟩ := found
      obtain ⟨h', hr', hnew, hbest⟩ := h.settle hlen hr hnearest
      by_cases htarget : cur = target
      · have hend : search A (SegmentGraph.of segments) target cap allow (fuel + 1) st =
            st.settle cur := by
          simp only [search, hnearest, if_pos htarget]
        rw [hend]
        exact ⟨h', Or.inl (htarget ▸ List.mem_cons_self)⟩
      · have hend : search A (SegmentGraph.of segments) target cap allow (fuel + 1) st =
            search A (SegmentGraph.of segments) target cap allow fuel
              (((SegmentGraph.of segments).successors cur).foldl
                (relax A cap allow cur best) (st.settle cur)) := by
          simp only [search, hnearest, if_neg htarget]
        rw [hend]
        have hrel := @foldl_relax_relaxes K allow _ A cap cur best
          ((SegmentGraph.of segments).successors cur) (st.settle cur)
        obtain ⟨c, hc, rfl⟩ := h'.inGraph hs (List.mem_cons_self (a := cur))
        obtain ⟨h'', hr''⟩ := h'.relax hids hc hr' List.mem_cons_self hbest hrel
        refine ih h'' hr'' ?_
        rw [hrel.done]
        simp only [SearchState.settle, List.length_cons]
        omega

/-! ## The path -/

/-- **The path** back from a segment that is done is a route that costs what its label says. -/
theorem pathBack_spec (hids : (segments.map SpineSegment.segmentId).Nodup)
    (hs : InGraph segments s) (h : SearchInv segments allow A cap s st) :
    ∀ {vs : List String}, Traced st.prev s.segmentId vs → (∀ v ∈ vs, v ∈ st.done) →
      ∀ {v : String} (fuel : ℕ) (rest : List (SpineSegment K)), v ∈ vs → vs.length ≤ fuel →
        ∃ path d, pathBack (SegmentGraph.of segments) st.prev s.segmentId fuel v rest =
            path ++ rest ∧ IsRoute segments allow s.segmentId v path ∧
          st.dist.get v = some d ∧ routeCost A path = d := by
  intro vs
  induction vs with
  | nil => exact fun _ _ v fuel rest hv => absurd hv List.not_mem_nil
  | cons w vs ih =>
    intro htraced hdone v fuel rest hv hfuel
    rcases List.mem_cons.mp hv with rfl | hv
    · obtain ⟨fuel, rfl⟩ : ∃ n, fuel = n + 1 := ⟨fuel - 1, by
        rw [List.length_cons] at hfuel
        omega⟩
      by_cases hfirst : v = s.segmentId
      · subst hfirst
        have hget := (byId_of hids).mpr ⟨hs, rfl⟩
        refine ⟨[s], A.zero, ?_, ⟨rfl, rfl, ?_, List.isChain_singleton _, ?_⟩, h.source, rfl⟩
        · simp only [pathBack, hget, Option.toList_some, if_true]
        · intro n hn
          rw [List.mem_singleton.mp hn]
          exact hs
        · exact fun n hn => absurd hn List.not_mem_nil
      · obtain ⟨d, hd⟩ := h.labelled v (hdone v List.mem_cons_self)
        rcases h.found v d hd with ⟨heq, -⟩ | ⟨a, b, da, hprev, -, hda, rfl, hab, rfl, -⟩
        · exact absurd heq hfirst
        · obtain ⟨u, hu, hprevu⟩ := htraced.2.resolve_left hfirst
          obtain rfl := Option.some.inj (hprev.symm.trans hprevu)
          have hget := (byId_of hids).mpr ⟨hab.target, rfl⟩
          obtain ⟨path, da', hpath, hroute, hda', hcost⟩ := ih htraced.1
            (fun x hx => hdone x (List.mem_cons_of_mem _ hx)) fuel ([b] ++ rest) hu (by
              rw [List.length_cons] at hfuel
              exact Nat.le_of_succ_le_succ hfuel)
          obtain rfl := Option.some.inj (hda.symm.trans hda')
          obtain ⟨a', ha', hid⟩ := Option.map_eq_some_iff.mp hroute.last
          have hsame : a' = a := List.inj_on_of_nodup_map hids
            (hroute.inGraph a' (List.mem_of_getLast? ha')).1 hab.source.1 hid
          refine ⟨path ++ [b], _, ?_, hroute.concat (hsame ▸ ha') hab, hd, ?_⟩
          · simp only [pathBack, hget, Option.toList_some, if_neg hfirst, hprev]
            rw [hpath, List.append_assoc]
          · have hne : path ≠ [] := by
              rintro rfl
              cases ha'
            rw [routeCost, List.tail_append_of_ne_nil hne, cost_concat, ← hcost, routeCost]
    · exact ih htraced.1 (fun x hx => hdone x (List.mem_cons_of_mem _ hx)) fuel rest hv
        ((Nat.le_succ _).trans hfuel)

omit [LinearOrder K] in
/-- A route from one segment of the graph to another is a walk. -/
theorem IsRoute.exists_walk (hids : (segments.map SpineSegment.segmentId).Nodup)
    (hs : InGraph segments s) {target : String} {path : List (SpineSegment K)}
    (h : IsRoute segments allow s.segmentId target path) :
    ∃ t, t.segmentId = target ∧ Walk (Follows segments allow) s t path.tail := by
  cases path with
  | nil => cases h.head
  | cons n rest =>
    obtain rfl : n = s := List.inj_on_of_nodup_map hids (h.inGraph n List.mem_cons_self).1 hs.1
      (Option.some.inj h.head)
    obtain ⟨t, ht, hid⟩ := Option.map_eq_some_iff.mp h.last
    exact ⟨t, hid, h.walk ht⟩

/-- Before the first round only the first segment is labelled. -/
theorem searchInv_start : SearchInv segments allow A cap s
    ⟨OrderedMap.empty.set s.segmentId A.zero, .empty, [s.segmentId], []⟩ where
  source := OrderedMap.get_set_self _ _ _
  found v d hd := by
    rw [OrderedMap.get_set] at hd
    split_ifs at hd with hv
    · exact Or.inl ⟨hv, (Option.some.inj hd).symm⟩
    · cases hd
  opened v := by
    rw [OrderedMap.get_set]
    split_ifs with hv <;> simp [hv]
  labelled v hv := absurd hv List.not_mem_nil
  traced := trivial
  nodup := List.nodup_nil
  optimal t d vs ht := absurd ht List.not_mem_nil

variable (segments allow A cap) in
/-- A route within the length that costs no more than any other. -/
structure IsShortest (first target : String) (path : List (SpineSegment K)) : Prop where
  route : IsRoute segments allow first target path
  within : routeCost A path ≤ cap
  least : ∀ other, IsRoute segments allow first target other → routeCost A path ≤ routeCost A other

/-- The search between two segments of the graph. -/
theorem shortestPath_cases (hids : (segments.map SpineSegment.segmentId).Nodup)
    (hlen : ∀ n ∈ segments, A.zero ≤ n.lengthM) (hcap : A.zero ≤ cap) (hs : InGraph segments s)
    {target : String} (htarget : (SegmentGraph.of segments).byId target ≠ none) :
    (∃ path, (SegmentGraph.of segments).shortestPath A s.segmentId target cap allow = some path ∧
        IsShortest segments allow A cap s.segmentId target path) ∨
      ((SegmentGraph.of segments).shortestPath A s.segmentId target cap allow = none ∧
        ¬∃ path, IsRoute segments allow s.segmentId target path ∧ routeCost A path ≤ cap) := by
  obtain ⟨t, ht⟩ := Option.ne_none_iff_exists'.mp htarget
  have hfirst := (byId_of hids).mpr ⟨hs, rfl⟩
  by_cases hsame : s.segmentId = target
  · refine Or.inl ⟨[s], by simp only [SegmentGraph.shortestPath, hfirst, ht, if_pos hsame],
      ⟨rfl, congrArg some hsame, fun n hn => ?_, List.isChain_singleton _, fun n hn =>
        absurd hn List.not_mem_nil⟩, hcap, fun other hother => ?_⟩
    · rw [List.mem_singleton.mp hn]
      exact hs
    · exact zero_le_cost A _ _ fun n hn => hlen n (hother.inGraph n (List.mem_of_mem_tail hn)).1
  · set st := search A (SegmentGraph.of segments) target cap allow
      ((SegmentGraph.of segments).segments.size + 1)
      ⟨OrderedMap.empty.set s.segmentId A.zero, .empty, [s.segmentId], []⟩ with hst
    obtain ⟨hinv, hend⟩ := @search_spec K segments allow _ A cap s hids hlen hs target _ _
      searchInv_start (fun a b d _ ha => absurd ha List.not_mem_nil)
      (Nat.lt_succ_self (SegmentGraph.of segments).segments.size)
    rw [← hst] at hinv hend
    have hpathOf : (SegmentGraph.of segments).shortestPath A s.segmentId target cap allow =
        if st.dist.has target then
          if (pathBack (SegmentGraph.of segments) st.prev s.segmentId
              ((SegmentGraph.of segments).segments.size + 1) target []).head?.map
                SpineSegment.segmentId = some s.segmentId then
            some (pathBack (SegmentGraph.of segments) st.prev s.segmentId
              ((SegmentGraph.of segments).segments.size + 1) target [])
          else none
        else none := by
      simp only [SegmentGraph.shortestPath, hfirst, ht, if_neg hsame, ← hst]
    by_cases hdone : target ∈ st.done
    · obtain ⟨path, d, hpath, hroute, hd, hcost⟩ := pathBack_spec hids hs hinv hinv.traced
        (fun v hv => hv) ((SegmentGraph.of segments).segments.size + 1) [] hdone
        ((hinv.length_done_le hids hs).trans (Nat.le_succ _))
      rw [List.append_nil] at hpath
      have hhas : st.dist.has target = true := by
        rw [OrderedMap.has, hd]
        rfl
      rw [hpath, if_pos hhas, if_pos hroute.head] at hpathOf
      have hcapd : d ≤ cap := by
        rcases hinv.found target d hd with ⟨heq, -⟩ | ⟨a, b, da, -, -, -, -, -, -, hle⟩
        · exact absurd heq.symm hsame
        · exact hle
      refine Or.inl ⟨path, hpathOf, hroute, hcost ▸ hcapd, fun other hother => ?_⟩
      rw [hcost]
      by_cases hother' : routeCost A other ≤ cap
      · obtain ⟨t', rfl, hwalk⟩ := hother.exists_walk hids hs
        exact hinv.optimal t' d _ hdone hd hwalk hother'
      · exact hcapd.trans (not_le.mp hother').le
    · obtain ⟨hr, hclosed⟩ := hend.resolve_left hdone
      have hhas : ¬st.dist.has target = true := by
        intro hhas
        obtain ⟨d, hd⟩ := Option.isSome_iff_exists.mp hhas
        exact hdone (hclosed target d hd)
      rw [if_neg hhas] at hpathOf
      refine Or.inr ⟨hpathOf, ?_⟩
      rintro ⟨path, hroute, hle⟩
      obtain ⟨t', rfl, hwalk⟩ := hroute.exists_walk hids hs
      obtain ⟨y, d, hy, hd, -⟩ := (hinv.settled hr).frontier (nonneg_of_follows hlen)
        (hclosed _ _ hinv.source) hdone hwalk hle
      exact hy (hclosed _ d hd)

/-- **The search finds shortest paths.** It finds none exactly when one of the ends is not in the graph
or no route within the length leads from one to the other; and what it finds is a route within the
length that costs no more than any other. -/
theorem shortestPath_correct (hids : (segments.map SpineSegment.segmentId).Nodup)
    (hlen : ∀ n ∈ segments, A.zero ≤ n.lengthM) (hcap : A.zero ≤ cap) (first target : String) :
    ((SegmentGraph.of segments).shortestPath A first target cap allow = none ↔
      (SegmentGraph.of segments).byId first = none ∨
        (SegmentGraph.of segments).byId target = none ∨
          ¬∃ path, IsRoute segments allow first target path ∧ routeCost A path ≤ cap) ∧
    ∀ path, (SegmentGraph.of segments).shortestPath A first target cap allow = some path →
      IsShortest segments allow A cap first target path := by
  cases hfirst : (SegmentGraph.of segments).byId first with
  | none => simp [SegmentGraph.shortestPath, hfirst]
  | some s =>
    cases htarget : (SegmentGraph.of segments).byId target with
    | none => simp [SegmentGraph.shortestPath, hfirst, htarget]
    | some t =>
      obtain ⟨hs, rfl⟩ := (byId_of hids).mp hfirst
      rcases @shortestPath_cases K segments allow _ A cap s hids hlen hcap hs target
        (by rw [htarget]; exact Option.some_ne_none t) with ⟨path, hpath, hshort⟩ | ⟨hnone, hno⟩
      · refine ⟨⟨fun h => ?_, fun h => ?_⟩, fun p hp => ?_⟩
        · rw [hpath] at h
          cases h
        · rcases h with h | h | h
          · cases h
          · cases h
          · exact absurd ⟨path, hshort.route, hshort.within⟩ h
        · obtain rfl := Option.some.inj (hpath.symm.trans hp)
          exact hshort
      · refine ⟨⟨fun _ => Or.inr (Or.inr hno), fun _ => hnone⟩, fun path hpath => ?_⟩
        rw [hnone] at hpath
        cases hpath

end Search

end Graph

/-! ## A detour -/

/-- The sum of lengths without rounding. -/
def exactSum : LengthSum ℚ where
  zero := 0
  add := (· + ·)
  add_mono l h := by simpa using h
  le_add a l h := by simpa using h

/-- A segment between points of a line. -/
def lineSegment (id : String) (coords : List LngLat) (lengthM : ℚ) : SpineSegment ℚ :=
  ⟨id, 1, .f, "primary", none, none, coords, lengthM⟩

/-- Three segments in a row, and a detour around the middle one. -/
def detourSegments : List (SpineSegment ℚ) :=
  [lineSegment "1:f" [(0, 0), (1, 0)] 100, lineSegment "2:f" [(1, 0), (2, 0)] 100,
    lineSegment "3:f" [(2, 0), (3, 0)] 100, lineSegment "4:f" [(1, 0), (1, 1), (2, 0)] 150]

/-- Around the middle segment the last one is 250 metres away, and no route is shorter. -/
theorem shortestPath_correct_detour :
    IsShortest detourSegments (fun n => decide (n.segmentId ≠ "2:f")) exactSum 400 "1:f" "3:f"
      [lineSegment "1:f" [(0, 0), (1, 0)] 100, lineSegment "4:f" [(1, 0), (1, 1), (2, 0)] 150,
        lineSegment "3:f" [(2, 0), (3, 0)] 100] := by
  have hfound : (SegmentGraph.of detourSegments).shortestPath exactSum "1:f" "3:f" 400
      (fun n => decide (n.segmentId ≠ "2:f")) = some
        [lineSegment "1:f" [(0, 0), (1, 0)] 100, lineSegment "4:f" [(1, 0), (1, 1), (2, 0)] 150,
          lineSegment "3:f" [(2, 0), (3, 0)] 100] := by decide +kernel
  have hids : (detourSegments.map SpineSegment.segmentId).Nodup := by decide +kernel
  have hlen : ∀ n ∈ detourSegments, exactSum.zero ≤ n.lengthM := by decide +kernel
  have hcap : exactSum.zero ≤ (400 : ℚ) := by decide +kernel
  exact (@shortestPath_correct ℚ detourSegments (fun n => decide (n.segmentId ≠ "2:f")) _ exactSum
    400 hids hlen hcap "1:f" "3:f").2 _ hfound

end OpenConditions.Roads

import Mathlib.Algebra.Order.Archimedean.Basic
import Mathlib.Algebra.Order.Field.Basic
import Mathlib.Data.List.Basic
import Mathlib.Tactic.Linarith
import Mathlib.Tactic.Ring

set_option relaxedAutoImplicit false
set_option autoImplicit false

/-!
# Location points along a polyline

A line location is encoded by its ends and a point wherever the distance since the last one would
exceed a cap (`packages/openlr/src/encode.ts`).  A walk over the polyline adds such points to its
vertices; an edge longer than the cap takes several of them.  Distances are exact, and how far two
positions are apart is a parameter.

## Main definitions

* `DensePoint`, `Walk` — the points of the denser polyline, and the walk so far.
* `splitEdge`, `walkEdges`, `buildDensePolyline` — the walk.
* `Walked` — what every walk has done.

## Main results

* `splitEdge_spec`, `walkEdges_spec` — every edge is walked to its end.
* `splitEdge_mono`, `walkEdges_mono` — more fuel changes nothing.
* `walkEdges_polyline` — the walk of a polyline ends, whatever its edges: its location points stand
  a cap apart.
-/

namespace OpenConditions.Openlr

section Definitions

variable {K : Type*} [Field K] [LinearOrder K]

/-- A position by its longitude and latitude. -/
structure LonLat (K : Type*) where
  lon : K
  lat : K
  deriving DecidableEq, Repr

/-- How far apart two location points may be, in metres. -/
def maxDnpMeters : K := 15000

/-- The position at a share of the way from one position to another. -/
def interpolate (a b : LonLat K) (t : K) : LonLat K :=
  ⟨a.lon + (b.lon - a.lon) * t, a.lat + (b.lat - a.lat) * t⟩

/-- A point of the denser polyline, and how far along it the point stands. -/
structure DensePoint (K : Type*) where
  point : LonLat K
  cumDistance : K
  deriving DecidableEq, Repr

/-- A walk so far: the points, the places among them of the location points, and the distance since
the last of these. -/
structure Walk (K : Type*) where
  dense : List (DensePoint K)
  lrpIndices : List ℕ
  distSinceLastLrp : K
  deriving DecidableEq, Repr

/-- How far the walk has come. -/
def Walk.length (w : Walk K) : K := (w.dense.getLast?.map DensePoint.cumDistance).getD 0

/-- A point farther along the line. -/
def Walk.push (w : Walk K) (point : LonLat K) (step : K) : List (DensePoint K) :=
  w.dense ++ [⟨point, w.length + step⟩]

/-- A location point on an edge, as far along it as the cap needs. -/
def Walk.split (w : Walk K) (a b : LonLat K) (edgeLen consumed : K) : Walk K where
  dense := w.push (interpolate a b
    ((consumed + (maxDnpMeters - w.distSinceLastLrp)) / edgeLen)) (maxDnpMeters - w.distSinceLastLrp)
  lrpIndices := w.lrpIndices ++ [w.dense.length]
  distSinceLastLrp := 0

/-- The location points on an edge: the walk after them, and how much of the edge is consumed; none
when the fuel does not reach. -/
def splitEdge (a b : LonLat K) (edgeLen : K) : ℕ → Walk K → K → Option (Walk K × K)
  | 0, _, _ => none
  | n + 1, w, consumed =>
    if 0 < edgeLen - consumed ∧ maxDnpMeters < w.distSinceLastLrp + (edgeLen - consumed) then
      splitEdge a b edgeLen n (w.split a b edgeLen consumed)
        (consumed + (maxDnpMeters - w.distSinceLastLrp))
    else some (w, consumed)

variable (dist : LonLat K → LonLat K → K)

/-- The walk to the end of an edge. -/
def walkEdge (fuel : ℕ) (w : Walk K) (a b : LonLat K) : Option (Walk K) :=
  (splitEdge a b (dist a b) fuel w 0).map fun (w, consumed) =>
    { w with
      dense := w.push b (dist a b - consumed)
      distSinceLastLrp := w.distSinceLastLrp + (dist a b - consumed) }

/-- The walk over the edges from a vertex on. -/
def walkEdges (fuel : ℕ) : Walk K → LonLat K → List (LonLat K) → Option (Walk K)
  | w, _, [] => some w
  | w, a, b :: rest => (walkEdge dist fuel w a b).bind fun w => walkEdges fuel w b rest

/-- The end of a polyline is a location point. -/
def Walk.closed (w : Walk K) : List (DensePoint K) × List ℕ :=
  let lastIndex := w.dense.length - 1
  (w.dense,
    if w.lrpIndices.getLast? ≠ some lastIndex then w.lrpIndices ++ [lastIndex] else w.lrpIndices)

/-- The denser polyline of at least one vertex, and the places of its location points. -/
def buildDensePolyline (fuel : ℕ) :
    List (LonLat K) → Option (List (DensePoint K) × List ℕ)
  | [] => none
  | a :: rest => (walkEdges dist fuel ⟨[⟨a, 0⟩], [0], 0⟩ a rest).map Walk.closed

/-- The length of a polyline from a vertex on. -/
def lengthFrom : LonLat K → List (LonLat K) → K
  | _, [] => 0
  | a, b :: rest => dist a b + lengthFrom b rest

/-- The length of a polyline. -/
def lineLength : List (LonLat K) → K
  | [] => 0
  | a :: rest => lengthFrom dist a rest

end Definitions

/-! ## Fuel -/

section Fuel

variable {K : Type*} [Field K] [LinearOrder K] {dist : LonLat K → LonLat K → K} {w : Walk K}

/-- More fuel adds no location point to an edge. -/
theorem splitEdge_mono {a b : LonLat K} {edgeLen consumed : K} {n : ℕ} {r : Walk K × K}
    (h : splitEdge a b edgeLen n w consumed = some r) :
    splitEdge a b edgeLen (n + 1) w consumed = some r := by
  induction n generalizing w consumed with
  | zero => cases h
  | succ n ih =>
    rw [splitEdge] at h ⊢
    split_ifs at h ⊢ with hmore
    · exact ih h
    · exact h

/-- More fuel does not change the walk. -/
theorem walkEdges_mono {n : ℕ} {a : LonLat K} {rest : List (LonLat K)} {w' : Walk K}
    (h : walkEdges dist n w a rest = some w') : walkEdges dist (n + 1) w a rest = some w' := by
  induction rest generalizing w a with
  | nil => exact h
  | cons b rest ih =>
    obtain ⟨v, hedge, hrest⟩ := Option.bind_eq_some_iff.mp h
    obtain ⟨r, hsplit, hv⟩ := Option.map_eq_some_iff.mp hedge
    refine Option.bind_eq_some_iff.mpr ⟨v, ?_, ih hrest⟩
    rw [walkEdge, splitEdge_mono hsplit, Option.map_some, hv]

end Fuel

/-! ## What every walk has done -/

section Invariant

variable {K : Type*} [Field K] [LinearOrder K]

/-- **A walk** from a start has come to a position: the location points stand a cap apart, and the
distance since the last is at most the cap. -/
structure Walked (start : LonLat K) (w : Walk K) (here : LonLat K) (length : K) : Prop where
  first : w.dense[0]? = some (DensePoint.mk start 0)
  last : w.dense.getLast? = some (DensePoint.mk here length)
  sorted : w.dense.Pairwise fun p q => p.cumDistance ≤ q.cumDistance
  head : w.lrpIndices[0]? = some 0
  places : ∀ j i : ℕ, w.lrpIndices[j]? = some i →
    ∃ p, w.dense[i]? = some (DensePoint.mk p ((j : K) * maxDnpMeters))
  since : length + maxDnpMeters = (w.lrpIndices.length : K) * maxDnpMeters + w.distSinceLastLrp
  nonneg : 0 ≤ w.distSinceLastLrp
  within : w.distSinceLastLrp ≤ maxDnpMeters

variable {start here there : LonLat K} {w : Walk K} {length step : K}

/-- The walk has come as far as its last point. -/
theorem Walked.length_eq (h : Walked start w here length) : w.length = length := by
  rw [Walk.length, h.last]
  rfl

/-- A point farther along is the last. -/
theorem Walked.push_eq (h : Walked start w here length) :
    w.push there step = w.dense ++ [⟨there, length + step⟩] := by
  rw [Walk.push, h.length_eq]

/-- No point stands farther along than the last. -/
theorem Walked.le_length (h : Walked start w here length) {p : DensePoint K} (hp : p ∈ w.dense) :
    p.cumDistance ≤ length := by
  obtain ⟨front, hfront⟩ := List.getLast?_eq_some_iff.mp h.last
  have hsorted := h.sorted
  rw [hfront] at hsorted hp
  rcases List.mem_append.mp hp with hp | hp
  · exact (List.pairwise_append.mp hsorted).2.2 p hp _ (List.mem_singleton.mpr rfl)
  · rw [List.mem_singleton.mp hp]

/-- What stood at a place still does when a point is added. -/
theorem Walked.getElem?_push (h : Walked start w here length) {i : ℕ} {p : DensePoint K}
    (hi : w.dense[i]? = some p) : (w.push there step)[i]? = some p := by
  rw [h.push_eq, List.getElem?_append_left (List.getElem?_eq_some_iff.mp hi).1, hi]

variable [IsStrictOrderedRing K]

/-- The cap is positive. -/
theorem maxDnpMeters_pos : (0 : K) < maxDnpMeters := by
  unfold maxDnpMeters
  norm_num

/-- The points stay in order when one farther along is added. -/
theorem Walked.sorted_push (h : Walked start w here length) (hstep : 0 ≤ step) :
    (w.push there step).Pairwise fun p q => p.cumDistance ≤ q.cumDistance := by
  rw [h.push_eq, List.pairwise_append]
  refine ⟨h.sorted, List.pairwise_singleton _ _, fun p hp q hq => ?_⟩
  rw [List.mem_singleton.mp hq]
  exact (h.le_length hp).trans (by simpa using hstep)

/-- **A location point** on an edge stands a cap after the one before. -/
theorem Walked.split (h : Walked start w here length) (a b : LonLat K) (edgeLen consumed : K) :
    Walked start (w.split a b edgeLen consumed)
      (interpolate a b ((consumed + (maxDnpMeters - w.distSinceLastLrp)) / edgeLen))
      (length + (maxDnpMeters - w.distSinceLastLrp)) := by
  have hstep : 0 ≤ maxDnpMeters - w.distSinceLastLrp := sub_nonneg.mpr h.within
  have hsince := h.since
  refine
    { first := h.getElem?_push h.first
      last := by rw [Walk.split, h.push_eq, List.getLast?_concat]
      sorted := h.sorted_push hstep
      head := by
        rw [Walk.split, List.getElem?_append_left (List.getElem?_eq_some_iff.mp h.head).1, h.head]
      places := fun j i hj => ?_
      since := ?_
      nonneg := le_rfl
      within := maxDnpMeters_pos.le }
  · rw [Walk.split, List.getElem?_append] at hj
    split_ifs at hj with hlt
    · obtain ⟨p, hp⟩ := h.places j i hj
      exact ⟨p, h.getElem?_push hp⟩
    · rw [List.getElem?_singleton] at hj
      split_ifs at hj with hzero
      obtain rfl := Option.some.inj hj
      have hcount : j = w.lrpIndices.length := by omega
      refine ⟨interpolate a b ((consumed + (maxDnpMeters - w.distSinceLastLrp)) / edgeLen), ?_⟩
      rw [Walk.split, h.push_eq, List.getElem?_concat_length, hcount]
      congr 2
      linarith
  · rw [Walk.split, List.length_append, List.length_singleton, Nat.cast_add, Nat.cast_one]
    linarith

/-- **The end of an edge** that is no farther than the cap allows. -/
theorem Walked.push (h : Walked start w here length) (there : LonLat K) (hstep : 0 ≤ step)
    (hcap : w.distSinceLastLrp + step ≤ maxDnpMeters) :
    Walked start { w with dense := w.push there step, distSinceLastLrp := w.distSinceLastLrp + step }
      there (length + step) where
  first := h.getElem?_push h.first
  last := by rw [h.push_eq, List.getLast?_concat]
  sorted := h.sorted_push hstep
  head := h.head
  places := fun j i hj => by
    obtain ⟨p, hp⟩ := h.places j i hj
    exact ⟨p, h.getElem?_push hp⟩
  since := by
    have hsince := h.since
    simp only
    linarith
  nonneg := add_nonneg h.nonneg hstep
  within := hcap

/-- **The location points on an edge** leave no more of it than the cap allows, once there is fuel
for as many caps as it is long. -/
theorem splitEdge_spec {a b : LonLat K} {edgeLen : K} {n : ℕ} {consumed from₀ : K}
    (h : Walked start w here (from₀ + consumed)) (hconsumed : consumed ≤ edgeLen)
    (hfuel : w.distSinceLastLrp + (edgeLen - consumed) ≤ (n : K) * maxDnpMeters) (hn : 0 < n) :
    ∃ w' consumed' here', splitEdge a b edgeLen n w consumed = some (w', consumed') ∧
      Walked start w' here' (from₀ + consumed') ∧ consumed' ≤ edgeLen ∧
      w'.distSinceLastLrp + (edgeLen - consumed') ≤ maxDnpMeters := by
  induction n generalizing w here consumed with
  | zero => exact absurd hn (lt_irrefl 0)
  | succ n ih =>
    unfold splitEdge
    split_ifs with hmore
    · obtain ⟨hleft, hfar⟩ := hmore
      have hsplit := h.split a b edgeLen consumed
      rw [add_assoc] at hsplit
      refine ih hsplit (by linarith) ?_ ?_
      · rw [Nat.cast_succ, add_mul, one_mul] at hfuel
        change 0 + (edgeLen - (consumed + (maxDnpMeters - w.distSinceLastLrp))) ≤ _
        linarith
      · rcases Nat.eq_zero_or_pos n with rfl | hpos
        · rw [Nat.cast_succ, Nat.cast_zero, zero_add, one_mul] at hfuel
          exact absurd hfar (not_lt.mpr hfuel)
        · exact hpos
    · refine ⟨w, consumed, here, rfl, h, hconsumed, ?_⟩
      by_contra hfar
      have hleft : ¬0 < edgeLen - consumed := fun hleft => hmore ⟨hleft, not_le.mp hfar⟩
      have hwithin := h.within
      linarith [not_lt.mp hleft]

variable {dist : LonLat K → LonLat K → K}

/-- **An edge** is walked to its end. -/
theorem walkEdge_spec {n : ℕ} {a b : LonLat K} (h : Walked start w here length)
    (hdist : 0 ≤ dist a b) (hfuel : maxDnpMeters + dist a b ≤ (n : K) * maxDnpMeters) :
    ∃ w', walkEdge dist n w a b = some w' ∧ Walked start w' b (length + dist a b) ∧
      ∀ i ∈ w'.lrpIndices, i + 1 < w'.dense.length := by
  have hn : 0 < n := by
    rcases Nat.eq_zero_or_pos n with rfl | hpos
    · rw [Nat.cast_zero, zero_mul] at hfuel
      linarith [maxDnpMeters_pos (K := K)]
    · exact hpos
  have hstart : Walked start w here (length + 0) := by rwa [add_zero]
  obtain ⟨w', consumed, here', hsplit, hwalked, hle, hrest⟩ :=
    splitEdge_spec (a := a) (b := b) hstart hdist
      (by rw [sub_zero]; exact (add_le_add_left h.within _).trans hfuel) hn
  refine ⟨_, by rw [walkEdge, hsplit]; rfl, ?_, fun i hi => ?_⟩
  · have hpush := hwalked.push b (sub_nonneg.mpr hle) hrest
    rwa [add_assoc, add_sub_cancel] at hpush
  · obtain ⟨j, hj⟩ := List.mem_iff_getElem?.mp hi
    obtain ⟨p, hp⟩ := hwalked.places j i hj
    simp only [Walk.push, List.length_append, List.length_singleton]
    have hlt := (List.getElem?_eq_some_iff.mp hp).1
    omega

/-- Distances make a length. -/
theorem lengthFrom_nonneg (hdist : ∀ a b, 0 ≤ dist a b) (a : LonLat K) (rest : List (LonLat K)) :
    0 ≤ lengthFrom dist a rest := by
  induction rest generalizing a with
  | nil => exact le_rfl
  | cons b rest ih => exact add_nonneg (hdist a b) (ih b)

/-- **The edges** from a vertex on are walked to the end of the last. -/
theorem walkEdges_spec (hdist : ∀ a b, 0 ≤ dist a b) {n : ℕ} {a b : LonLat K}
    {rest : List (LonLat K)} (h : Walked start w here length)
    (hfuel : maxDnpMeters + lengthFrom dist a (b :: rest) ≤ (n : K) * maxDnpMeters) :
    ∃ w', walkEdges dist n w a (b :: rest) = some w' ∧
      Walked start w' ((b :: rest).getLast (List.cons_ne_nil b rest))
        (length + lengthFrom dist a (b :: rest)) ∧
      ∀ i ∈ w'.lrpIndices, i + 1 < w'.dense.length := by
  induction rest generalizing w a b here length with
  | nil =>
    simp only [lengthFrom, add_zero] at hfuel
    obtain ⟨w', hedge, hwalked, hfresh⟩ := walkEdge_spec h (hdist a b) hfuel
    refine ⟨w', by rw [walkEdges, hedge]; rfl, ?_, hfresh⟩
    simpa [lengthFrom] using hwalked
  | cons c rest ih =>
    have hsplit : lengthFrom dist a (b :: c :: rest) = dist a b + lengthFrom dist b (c :: rest) :=
      rfl
    rw [hsplit] at hfuel
    obtain ⟨w', hedge, hwalked, -⟩ := walkEdge_spec h (hdist a b)
      (by linarith [lengthFrom_nonneg hdist b (c :: rest)])
    obtain ⟨w'', hedges, hend, hfresh⟩ := ih hwalked (by linarith [hdist a b])
    refine ⟨w'', by rw [walkEdges, hedge]; exact hedges, ?_, hfresh⟩
    rw [hsplit, ← add_assoc, List.getLast_cons_cons]
    exact hend

/-! ## Polylines -/

/-- **A polyline** of at least two vertices is walked to its end, by any fuel for as many caps as it
is long and one: what the walk has done does not depend on the fuel. -/
theorem walkEdges_polyline [Archimedean K] (hdist : ∀ a b, 0 ≤ dist a b) (a b : LonLat K)
    (rest : List (LonLat K)) :
    ∃ n₀ w, (∀ n, n₀ ≤ n → walkEdges dist n ⟨[⟨a, 0⟩], [0], 0⟩ a (b :: rest) = some w) ∧
      Walked a w ((b :: rest).getLast (List.cons_ne_nil b rest))
        (lineLength dist (a :: b :: rest)) ∧
      ∀ i ∈ w.lrpIndices, i + 1 < w.dense.length := by
  have hstart : Walked a (⟨[⟨a, 0⟩], [0], 0⟩ : Walk K) a 0 :=
    { first := rfl
      last := rfl
      sorted := List.pairwise_singleton _ _
      head := rfl
      places := fun j i hj => by
        rw [List.getElem?_singleton] at hj
        split_ifs at hj with hzero
        obtain rfl := Option.some.inj hj
        exact ⟨a, by simp [hzero]⟩
      since := by simp
      nonneg := le_rfl
      within := maxDnpMeters_pos.le }
  obtain ⟨n₀, hn₀⟩ := Archimedean.arch (maxDnpMeters + lengthFrom dist a (b :: rest))
    (maxDnpMeters_pos (K := K))
  rw [nsmul_eq_mul] at hn₀
  obtain ⟨w, hwalk, hwalked, hfresh⟩ := walkEdges_spec hdist hstart hn₀
  refine ⟨n₀, w, fun n hn => ?_, by rwa [zero_add] at hwalked, hfresh⟩
  induction n, hn using Nat.le_induction with
  | base => exact hwalk
  | succ n _ ih => exact walkEdges_mono ih

end Invariant

end OpenConditions.Openlr

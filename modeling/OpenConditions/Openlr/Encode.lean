import Mathlib.Algebra.BigOperators.Group.List.Basic
import OpenConditions.Openlr.DensePolyline

set_option relaxedAutoImplicit false
set_option autoImplicit false

/-!
# The location points of a line

Every location point says how far the next one is, and the direction in which the line leaves it,
of the last one the direction in which it arrives (`packages/openlr/src/encode.ts`).  Directions
are taken from a sample of the line some metres on, but not past the next point.

## Main definitions

* `pointAtCumDistance` — the position some way along the line.
* `distanceToNext`, `bearingSample`, `bearingAtLrp` — what a location point says.
* `encodeOpenlrLine` — the location points of a line.
* `OnLine` — a position is some way along the line.

## Main results

* `pointAtCumDistance_onLine` — the position some way along the line is there.
* `Walked.closed_spec` — where the location points stand: `Placed`.
* `Placed.packed` — what is packed of them.
* `encodeOpenlrLine_spec` — the location points cover the line and respect the cap, and samples lie
  between a point and its neighbour.
-/

namespace OpenConditions.Openlr

section Definitions

variable {K : Type} [Field K] [LinearOrder K]

/-- How far from a location point its direction is taken, in metres. -/
def bearingSampleMeters : K := 20

/-- The position some way along the line after a point. -/
def pointAfter (clamped : K) : DensePoint K → List (DensePoint K) → LonLat K
  | prev, [] => prev.point
  | prev, curr :: rest =>
    if clamped ≤ curr.cumDistance then
      let span := curr.cumDistance - prev.cumDistance
      interpolate prev.point curr.point (if 0 < span then (clamped - prev.cumDistance) / span else 0)
    else pointAfter clamped curr rest

/-- The position some way along the line, within its length. -/
def pointAtCumDistance (dense : List (DensePoint K)) (targetDistance : K) : Option (LonLat K) :=
  match dense, dense.getLast? with
  | first :: rest, some last =>
    some (pointAfter (max 0 (min targetDistance last.cumDistance)) first rest)
  | _, _ => none

/-- A location point. -/
def lrpPoint (dense : List (DensePoint K)) (lrpIndices : List ℕ) (i : ℕ) : Option (DensePoint K) :=
  lrpIndices[i]?.bind fun idx => dense[idx]?

/-- How far along the line a location point stands. -/
def lrpDistance (dense : List (DensePoint K)) (lrpIndices : List ℕ) (i : ℕ) : Option K :=
  (lrpPoint dense lrpIndices i).map DensePoint.cumDistance

/-- How far the next location point is; nothing after the last. -/
def distanceToNext (dense : List (DensePoint K)) (lrpIndices : List ℕ) (i : ℕ) : Option K :=
  if i + 1 = lrpIndices.length then some 0
  else
    match lrpDistance dense lrpIndices (i + 1), lrpDistance dense lrpIndices i with
    | some next, some own => some (next - own)
    | _, _ => none

/-- The neighbour of a location point on the line that its direction is of: the next one, of the
last one the one before. -/
def neighbour (lrpIndices : List ℕ) (i : ℕ) : ℕ := if i + 1 = lrpIndices.length then i - 1 else i + 1

/-- The sample of the line that a location point's direction is taken from. -/
def bearingSample (dense : List (DensePoint K)) (lrpIndices : List ℕ) (i : ℕ) :
    Option (LonLat K) :=
  match lrpDistance dense lrpIndices i,
    lrpDistance dense lrpIndices (neighbour lrpIndices i) with
  | some cum, some other =>
    if i + 1 = lrpIndices.length then
      pointAtCumDistance dense (max (cum - bearingSampleMeters) other)
    else pointAtCumDistance dense (min (cum + bearingSampleMeters) other)
  | _, _ => none

/-- The direction of the line at a location point; `initialBearing` is the direction from one
position to another. -/
def bearingAtLrp {B : Type} (initialBearing : LonLat K → LonLat K → B)
    (dense : List (DensePoint K)) (lrpIndices : List ℕ) (i : ℕ) : Option B :=
  match lrpPoint dense lrpIndices i, bearingSample dense lrpIndices i with
  | some own, some sample => some (initialBearing own.point sample)
  | _, _ => none

/-- One location point to encode. -/
structure OpenLrLrpInput (K B : Type) where
  longitude : K
  latitude : K
  frc : ℕ
  fow : ℕ
  bearing : B
  distanceToNext : K
  lfrcnp : Option ℕ
  deriving DecidableEq, Repr

/-- One location point of a line. -/
def lrpInput {B : Type} (initialBearing : LonLat K → LonLat K → B) (dense : List (DensePoint K))
    (lrpIndices : List ℕ) (frc fow i : ℕ) : Option (OpenLrLrpInput K B) := do
  let own ← lrpPoint dense lrpIndices i
  let bearing ← bearingAtLrp initialBearing dense lrpIndices i
  let next ← distanceToNext dense lrpIndices i
  pure ⟨own.point.lon, own.point.lat, frc, fow, bearing, next,
    if i + 1 = lrpIndices.length then none else some frc⟩

/-- The location points of a line of at least two vertices, as they are packed. -/
def encodeOpenlrLine {B : Type} (dist : LonLat K → LonLat K → K)
    (initialBearing : LonLat K → LonLat K → B) (fuel : ℕ) (coords : List (LonLat K))
    (frc fow : ℕ) : Option (List (OpenLrLrpInput K B)) :=
  if coords.length < 2 then none
  else
    (buildDensePolyline dist fuel coords).bind fun (dense, lrpIndices) =>
      (List.range lrpIndices.length).mapM (lrpInput initialBearing dense lrpIndices frc fow)

end Definitions

/-! ## Where the location points stand -/

section Placed

variable {K : Type} [Field K] [LinearOrder K]

/-- **Location points** of a line from a start to an end: they stand a cap apart, but for the last,
which is the end and at most a cap on. -/
structure Placed (dense : List (DensePoint K)) (lrpIndices : List ℕ) (start finish : LonLat K)
    (total : K) (k : ℕ) : Prop where
  count : lrpIndices.length = k + 2
  start : lrpPoint dense lrpIndices 0 = some (DensePoint.mk start 0)
  finish : lrpPoint dense lrpIndices (k + 1) = some (DensePoint.mk finish total)
  apart : ∀ i ≤ k, lrpDistance dense lrpIndices i = some ((i : K) * maxDnpMeters)
  far : (k : K) * maxDnpMeters ≤ total
  near : total ≤ (k : K) * maxDnpMeters + maxDnpMeters

variable {dense : List (DensePoint K)} {lrpIndices : List ℕ} {start finish : LonLat K} {total : K}
variable {k : ℕ}

/-- The last location point stands at the end of the line. -/
theorem Placed.distance_last (h : Placed dense lrpIndices start finish total k) :
    lrpDistance dense lrpIndices (k + 1) = some total := by
  rw [lrpDistance, h.finish, Option.map_some]

/-- Every location point but the last two is a cap from the next one. -/
theorem Placed.distanceToNext_of_lt (h : Placed dense lrpIndices start finish total k) {i : ℕ}
    (hi : i < k) : distanceToNext dense lrpIndices i = some maxDnpMeters := by
  rw [distanceToNext, if_neg (by rw [h.count]; omega), h.apart (i + 1) (by omega), h.apart i hi.le]
  dsimp only
  congr 1
  push_cast
  ring

/-- The last but one is what is left of the line from the last. -/
theorem Placed.distanceToNext_last_leg (h : Placed dense lrpIndices start finish total k) :
    distanceToNext dense lrpIndices k = some (total - (k : K) * maxDnpMeters) := by
  rw [distanceToNext, if_neg (by rw [h.count]; omega), h.distance_last, h.apart k le_rfl]

/-- Nothing follows the last. -/
theorem Placed.distanceToNext_last (h : Placed dense lrpIndices start finish total k) :
    distanceToNext dense lrpIndices (k + 1) = some 0 := by
  rw [distanceToNext, if_pos h.count.symm]

/-- Every place of a location point has one. -/
theorem Placed.exists_lrpPoint (h : Placed dense lrpIndices start finish total k) {i : ℕ}
    (hi : i < lrpIndices.length) : ∃ own, lrpPoint dense lrpIndices i = some own := by
  have hcount := h.count
  rcases Nat.lt_or_ge i (k + 1) with hlt | hge
  · obtain ⟨own, hown, -⟩ := Option.map_eq_some_iff.mp (h.apart i (by omega))
    exact ⟨own, hown⟩
  · obtain rfl : i = k + 1 := by omega
    exact ⟨_, h.finish⟩

/-- How far the next location point is: a cap, then what is left of the line, then nothing. -/
theorem Placed.distancesToNext (h : Placed dense lrpIndices start finish total k) {f : ℕ → K}
    (hf : ∀ i < lrpIndices.length, distanceToNext dense lrpIndices i = some (f i)) :
    (List.range lrpIndices.length).map f =
      List.replicate k maxDnpMeters ++ [total - (k : K) * maxDnpMeters, 0] := by
  have hcount := h.count
  have hcaps : (List.range k).map f = List.replicate k maxDnpMeters := by
    rw [List.eq_replicate_iff]
    refine ⟨by rw [List.length_map, List.length_range], fun x hx => ?_⟩
    obtain ⟨i, hi, rfl⟩ := List.mem_map.mp hx
    have hlt := List.mem_range.mp hi
    exact Option.some.inj ((hf i (by omega)).symm.trans (h.distanceToNext_of_lt hlt))
  have hleg : f k = total - (k : K) * maxDnpMeters :=
    Option.some.inj ((hf k (by omega)).symm.trans h.distanceToNext_last_leg)
  have hnone : f (k + 1) = 0 :=
    Option.some.inj ((hf (k + 1) (by omega)).symm.trans h.distanceToNext_last)
  rw [hcount, List.range_succ, List.range_succ, List.map_append, List.map_append, hcaps,
    List.append_assoc, List.map_singleton, List.map_singleton, hleg, hnone]
  rfl

variable {B : Type} {initialBearing : LonLat K → LonLat K → B} {frc fow : ℕ}

/-- What a location point says. -/
theorem lrpInput_eq_some {i : ℕ} {own : DensePoint K} {sample : LonLat K} {next : K}
    (hown : lrpPoint dense lrpIndices i = some own)
    (hsample : bearingSample dense lrpIndices i = some sample)
    (hnext : distanceToNext dense lrpIndices i = some next) :
    lrpInput initialBearing dense lrpIndices frc fow i =
      some ⟨own.point.lon, own.point.lat, frc, fow, initialBearing own.point sample, next,
        if i + 1 = lrpIndices.length then none else some frc⟩ := by
  simp [lrpInput, bearingAtLrp, hown, hsample, hnext]

/-- A function that has a value at each of the first numbers has a list of them. -/
theorem mapM_range_eq_some {C : Type} {f : ℕ → Option C} {g : ℕ → C} {n : ℕ}
    (h : ∀ i < n, f i = some (g i)) : (List.range n).mapM f = some ((List.range n).map g) := by
  have hlist : ∀ l : List ℕ, (∀ i ∈ l, f i = some (g i)) → l.mapM f = some (l.map g) := by
    intro l hl
    induction l with
    | nil => rfl
    | cons i l ih =>
      rw [List.mapM_cons, hl i List.mem_cons_self,
        ih fun j hj => hl j (List.mem_cons_of_mem i hj)]
      rfl
  exact hlist _ fun i hi => h i (List.mem_range.mp hi)

/-- Where a location point is said to stand. -/
def OpenLrLrpInput.position (p : OpenLrLrpInput K B) : LonLat K := ⟨p.longitude, p.latitude⟩

/-- **What is packed** of location points that are placed. -/
theorem Placed.packed (h : Placed dense lrpIndices start finish total k)
    (hsamples : ∀ i < lrpIndices.length, ∃ sample, bearingSample dense lrpIndices i = some sample)
    (initialBearing : LonLat K → LonLat K → B) (frc fow : ℕ) :
    ∃ points, (List.range lrpIndices.length).mapM
        (lrpInput initialBearing dense lrpIndices frc fow) = some points ∧
      (points.map OpenLrLrpInput.position).head? = some start ∧
      (points.map OpenLrLrpInput.position).getLast? = some finish ∧
      points.map OpenLrLrpInput.distanceToNext =
        List.replicate k maxDnpMeters ++ [total - (k : K) * maxDnpMeters, 0] := by
  have hcount := h.count
  have hnext : ∀ i < lrpIndices.length, ∃ next, distanceToNext dense lrpIndices i = some next := by
    intro i hi
    rcases Nat.lt_trichotomy i k with hlt | rfl | hgt
    · exact ⟨_, h.distanceToNext_of_lt hlt⟩
    · exact ⟨_, h.distanceToNext_last_leg⟩
    · obtain rfl : i = k + 1 := by omega
      exact ⟨_, h.distanceToNext_last⟩
  have hinput : ∀ i < lrpIndices.length, ∃ p : OpenLrLrpInput K B,
      lrpInput initialBearing dense lrpIndices frc fow i = some p ∧
        (lrpPoint dense lrpIndices i).map DensePoint.point = some p.position ∧
        distanceToNext dense lrpIndices i = some p.distanceToNext := by
    intro i hi
    obtain ⟨own, hown⟩ := h.exists_lrpPoint hi
    obtain ⟨sample, hsample⟩ := hsamples i hi
    obtain ⟨next, hnext⟩ := hnext i hi
    exact ⟨_, lrpInput_eq_some hown hsample hnext, by rw [hown]; rfl, hnext⟩
  obtain ⟨p₀, -⟩ := hinput 0 (by omega)
  choose g hg using fun i => show ∃ p : OpenLrLrpInput K B, i < lrpIndices.length →
      lrpInput initialBearing dense lrpIndices frc fow i = some p ∧
        (lrpPoint dense lrpIndices i).map DensePoint.point = some p.position ∧
        distanceToNext dense lrpIndices i = some p.distanceToNext by
    by_cases hi : i < lrpIndices.length
    · obtain ⟨p, hp⟩ := hinput i hi
      exact ⟨p, fun _ => hp⟩
    · exact ⟨p₀, fun hlt => absurd hlt hi⟩
  have hfirst := (hg 0 (by omega)).2.1
  rw [h.start] at hfirst
  have hlast := (hg (k + 1) (by omega)).2.1
  rw [h.finish] at hlast
  refine ⟨_, mapM_range_eq_some fun i hi => (hg i hi).1, ?_, ?_, ?_⟩
  · rw [List.head?_map, List.head?_map, hcount, List.head?_range, if_neg (by omega)]
    exact hfirst.symm
  · rw [hcount, List.range_succ, List.map_append, List.map_append, List.map_singleton,
      List.map_singleton, List.getLast?_concat]
    exact hlast.symm
  · rw [List.map_map]
    exact h.distancesToNext fun i hi => (hg i hi).2.2

end Placed

/-! ## Positions along the line -/

section Samples

variable {K : Type} [Field K] [LinearOrder K] [IsStrictOrderedRing K]

/-- A position is some way along the line: between two points that follow each other, at its share
of the way between them. -/
def OnLine (dense : List (DensePoint K)) (distance : K) (position : LonLat K) : Prop :=
  ∃ front p q back t, dense = front ++ p :: q :: back ∧ 0 ≤ t ∧ t ≤ 1 ∧
    position = interpolate p.point q.point t ∧
    distance = p.cumDistance + t * (q.cumDistance - p.cumDistance)

/-- The position some way along the line after a point is there. -/
theorem pointAfter_onLine {clamped : K} {prev last : DensePoint K} {rest : List (DensePoint K)}
    (hlast : rest.getLast? = some last) (hprev : prev.cumDistance ≤ clamped)
    (hclamped : clamped ≤ last.cumDistance) :
    OnLine (prev :: rest) clamped (pointAfter clamped prev rest) := by
  induction rest generalizing prev with
  | nil => cases hlast
  | cons curr rest ih =>
    by_cases hle : clamped ≤ curr.cumDistance
    · rw [pointAfter, if_pos hle]
      refine ⟨[], prev, curr, rest, _, rfl, ?_, ?_, rfl, ?_⟩
      · split_ifs with hspan
        · exact div_nonneg (sub_nonneg.mpr hprev) hspan.le
        · exact le_rfl
      · split_ifs with hspan
        · rw [div_le_one hspan]
          exact sub_le_sub_right hle _
        · exact zero_le_one
      · split_ifs with hspan
        · rw [div_mul_cancel₀ _ hspan.ne', add_sub_cancel]
        · linarith [not_lt.mp hspan]
    · rw [pointAfter, if_neg hle]
      have hlast' : rest.getLast? = some last := by
        cases rest with
        | nil =>
          obtain rfl : curr = last := Option.some.inj hlast
          exact absurd hclamped hle
        | cons next rest => simpa [List.getLast?_cons_cons] using hlast
      obtain ⟨front, p, q, back, t, hsplit, hposition⟩ := ih hlast' (not_le.mp hle).le
      exact ⟨prev :: front, p, q, back, t, by rw [hsplit, List.cons_append], hposition⟩

/-- **Samples.** The position some way along a line of at least two points is there. -/
theorem pointAtCumDistance_onLine {first last : DensePoint K} {rest : List (DensePoint K)}
    {target : K} (hlast : rest.getLast? = some last) (hfirst : first.cumDistance = 0)
    (hnonneg : 0 ≤ target) (hle : target ≤ last.cumDistance) :
    ∃ position, pointAtCumDistance (first :: rest) target = some position ∧
      OnLine (first :: rest) target position := by
  have hend : (first :: rest).getLast? = some last := by
    cases rest with
    | nil => cases hlast
    | cons next rest => simpa [List.getLast?_cons_cons] using hlast
  refine ⟨pointAfter target first rest, ?_, pointAfter_onLine hlast (hfirst ▸ hnonneg) hle⟩
  simp only [pointAtCumDistance, hend, min_eq_left hle, max_eq_right hnonneg]

variable {dense : List (DensePoint K)} {lrpIndices : List ℕ} {start finish : LonLat K} {total : K}
variable {k : ℕ}

/-- **A walk that is closed** has placed its location points. -/
theorem Walked.closed_spec {w : Walk K} (h : Walked start w finish total)
    (hfresh : ∀ i ∈ w.lrpIndices, i + 1 < w.dense.length) :
    ∃ k, w.closed = (w.dense, w.lrpIndices ++ [w.dense.length - 1]) ∧
      Placed w.dense (w.lrpIndices ++ [w.dense.length - 1]) start finish total k := by
  obtain ⟨k, hk⟩ : ∃ k, w.lrpIndices.length = k + 1 := by
    have hpos := (List.getElem?_eq_some_iff.mp h.head).1
    exact ⟨w.lrpIndices.length - 1, by omega⟩
  have hnew : w.lrpIndices.getLast? ≠ some (w.dense.length - 1) := fun hlast => by
    have hlt := hfresh _ (List.mem_of_getLast? hlast)
    omega
  have hown : ∀ i ≤ k, lrpPoint w.dense (w.lrpIndices ++ [w.dense.length - 1]) i =
      w.lrpIndices[i]?.bind fun idx => w.dense[idx]? := fun i hi => by
    rw [lrpPoint, List.getElem?_append_left (by omega)]
  have hsince := h.since
  rw [hk, Nat.cast_succ, add_mul, one_mul] at hsince
  refine ⟨k, by rw [Walk.closed, if_pos hnew], ?_⟩
  exact
    { count := by rw [List.length_append, hk]; rfl
      start := by rw [hown 0 (Nat.zero_le k), h.head, Option.bind_some, h.first]
      finish := by
        rw [lrpPoint, ← hk, List.getElem?_concat_length, Option.bind_some,
          ← List.getLast?_eq_getElem?, h.last]
      apart := fun i hi => by
        have hidx := List.getElem?_eq_getElem (show i < w.lrpIndices.length by omega)
        obtain ⟨p, hp⟩ := h.places i _ hidx
        rw [lrpDistance, hown i hi, hidx, Option.bind_some, hp, Option.map_some]
      far := by linarith [h.nonneg]
      near := by linarith [h.within] }

/-- **Samples lie between** a location point and its neighbour. -/
theorem Placed.bearingSample_between (h : Placed dense lrpIndices start finish total k)
    {first last : DensePoint K} {rest : List (DensePoint K)} (hdense : dense = first :: rest)
    (hfirst : first.cumDistance = 0) (hlast : rest.getLast? = some last)
    (htotal : last.cumDistance = total) {i : ℕ} (hi : i < lrpIndices.length) :
    ∃ own other sample distance, lrpDistance dense lrpIndices i = some own ∧
      lrpDistance dense lrpIndices (neighbour lrpIndices i) = some other ∧
      bearingSample dense lrpIndices i = some sample ∧ OnLine dense distance sample ∧
      min own other ≤ distance ∧ distance ≤ max own other := by
  have hcount := h.count
  have hcap := maxDnpMeters_pos (K := K)
  have hsample : (0 : K) ≤ bearingSampleMeters := by
    unfold bearingSampleMeters
    norm_num
  have honline : ∀ target : K, 0 ≤ target → target ≤ total →
      ∃ position, pointAtCumDistance dense target = some position ∧
        OnLine dense target position := by
    intro target hnonneg hle
    rw [hdense]
    exact pointAtCumDistance_onLine hlast hfirst hnonneg (htotal ▸ hle)
  have htotal0 : 0 ≤ total := (mul_nonneg (Nat.cast_nonneg k) hcap.le).trans h.far
  by_cases hend : i + 1 = lrpIndices.length
  · -- the last location point looks back
    obtain rfl : i = k + 1 := by omega
    have hneighbour : neighbour lrpIndices (k + 1) = k := by rw [neighbour, if_pos hend]; rfl
    obtain ⟨sample, hposition, hline⟩ :=
      honline (max (total - bearingSampleMeters) ((k : K) * maxDnpMeters))
        (le_max_of_le_right (mul_nonneg (Nat.cast_nonneg k) hcap.le))
        (max_le (sub_le_self _ hsample) h.far)
    refine ⟨total, (k : K) * maxDnpMeters, sample, _, h.distance_last,
      by rw [hneighbour]; exact h.apart k le_rfl, ?_, hline, ?_, ?_⟩
    · simp only [bearingSample, hneighbour, h.distance_last, h.apart k le_rfl, if_pos hend,
        hposition]
    · exact (min_le_right _ _).trans (le_max_right _ _)
    · exact (max_le (sub_le_self _ hsample) h.far).trans (le_max_left _ _)
  · -- any other looks ahead
    have hik : i ≤ k := by omega
    have hneighbour : neighbour lrpIndices i = i + 1 := if_neg hend
    obtain ⟨other, hother, hown, hle⟩ : ∃ other,
        lrpDistance dense lrpIndices (i + 1) = some other ∧ (i : K) * maxDnpMeters ≤ other ∧
          other ≤ total := by
      rcases Nat.lt_or_ge i k with hlt | hge
      · refine ⟨_, h.apart (i + 1) (by omega), ?_, ?_⟩
        · exact mul_le_mul_of_nonneg_right (by exact_mod_cast Nat.le_succ i) hcap.le
        · refine le_trans (mul_le_mul_of_nonneg_right ?_ hcap.le) h.far
          exact_mod_cast hlt
      · obtain rfl : i = k := by omega
        exact ⟨total, h.distance_last, h.far, le_rfl⟩
    have hown0 : 0 ≤ (i : K) * maxDnpMeters := mul_nonneg (Nat.cast_nonneg i) hcap.le
    obtain ⟨sample, hposition, hline⟩ :=
      honline (min ((i : K) * maxDnpMeters + bearingSampleMeters) other)
        (le_min (add_nonneg hown0 hsample) (hown0.trans hown)) ((min_le_right _ _).trans hle)
    refine ⟨(i : K) * maxDnpMeters, other, sample, _, h.apart i hik,
      by rw [hneighbour]; exact hother, ?_, hline, ?_, ?_⟩
    · simp only [bearingSample, hneighbour, hother, h.apart i hik, if_neg hend, hposition]
    · exact (min_le_left _ _).trans (le_min (le_add_of_nonneg_right hsample) hown)
    · exact (min_le_right _ _).trans (le_max_right _ _)

variable {B : Type}

/-- **The location points of a line** of any edges: with enough fuel the walk ends, the same with
any more; the first and the last point are the ends of the line; the distances to the next point
are caps, then one within the cap, then nothing, and sum up to the length of the line; and the
sample that a direction is taken from lies on the line between its point and the neighbour. -/
theorem encodeOpenlrLine_spec [Archimedean K] {dist : LonLat K → LonLat K → K}
    (hdist : ∀ a b, 0 ≤ dist a b) (initialBearing : LonLat K → LonLat K → B)
    (a b : LonLat K) (rest : List (LonLat K)) (frc fow : ℕ) :
    ∃ n₀ dense lrpIndices points k leg,
      (∀ n, n₀ ≤ n → buildDensePolyline dist n (a :: b :: rest) = some (dense, lrpIndices) ∧
        encodeOpenlrLine dist initialBearing n (a :: b :: rest) frc fow = some points) ∧
      (points.map OpenLrLrpInput.position).head? = some a ∧
      (points.map OpenLrLrpInput.position).getLast? = (a :: b :: rest).getLast? ∧
      points.map OpenLrLrpInput.distanceToNext = List.replicate k maxDnpMeters ++ [leg, 0] ∧
      0 ≤ leg ∧ leg ≤ maxDnpMeters ∧
      (points.map OpenLrLrpInput.distanceToNext).sum = lineLength dist (a :: b :: rest) ∧
      ∀ i < lrpIndices.length, ∃ own other sample distance,
        lrpDistance dense lrpIndices i = some own ∧
        lrpDistance dense lrpIndices (neighbour lrpIndices i) = some other ∧
        bearingSample dense lrpIndices i = some sample ∧ OnLine dense distance sample ∧
        min own other ≤ distance ∧ distance ≤ max own other := by
  obtain ⟨n₀, w, hwalk, hwalked, hfresh⟩ := walkEdges_polyline hdist a b rest
  obtain ⟨k, hclosed, hplaced⟩ := hwalked.closed_spec hfresh
  -- the denser polyline has its start and more, to the end of the line
  obtain ⟨second, more, hdense⟩ : ∃ second more, w.dense = ⟨a, 0⟩ :: second :: more := by
    have hlong := hfresh 0 (List.mem_of_getElem? hwalked.head)
    have hfirst := hwalked.first
    rcases hw : w.dense with - | ⟨first, - | ⟨second, more⟩⟩
    · simp [hw] at hlong
    · simp [hw] at hlong
    · rw [hw, List.getElem?_cons_zero] at hfirst
      exact ⟨second, more, by rw [Option.some.inj hfirst]⟩
  have hlast := hwalked.last
  rw [hdense, List.getLast?_cons_cons] at hlast
  have hbetween := fun i hi =>
    hplaced.bearingSample_between hdense rfl hlast rfl (i := i) hi
  obtain ⟨points, hpoints, hhead, hend, hdistances⟩ := hplaced.packed (fun i hi => by
    obtain ⟨own, other, sample, distance, -, -, hsample, -⟩ := hbetween i hi
    exact ⟨sample, hsample⟩) initialBearing frc fow
  refine ⟨n₀, w.dense, w.lrpIndices ++ [w.dense.length - 1], points, k, _, fun n hn => ?_, hhead, ?_,
    hdistances, ?_, ?_, ?_, hbetween⟩
  · have hbuild : buildDensePolyline dist n (a :: b :: rest) =
        some (w.dense, w.lrpIndices ++ [w.dense.length - 1]) := by
      rw [buildDensePolyline, hwalk n hn, Option.map_some, hclosed]
    refine ⟨hbuild, ?_⟩
    rw [encodeOpenlrLine, if_neg (by simp), hbuild]
    exact hpoints
  · rw [hend, List.getLast?_cons_cons, List.getLast?_eq_getLast_of_ne_nil]
  · exact sub_nonneg.mpr hplaced.far
  · linarith [hplaced.near]
  · rw [hdistances, List.sum_append, List.sum_replicate, nsmul_eq_mul]
    simp

end Samples

/-! ## A line along a meridian -/

/-- Distances along a meridian, in metres. -/
def meridianDist (a b : LonLat ℚ) : ℚ := |b.lat - a.lat| * 111195

/-- A line of a vertex that stands twice and an edge of many caps. -/
def meridianLine : List (LonLat ℚ) := [⟨4, 52⟩, ⟨4, 52⟩, ⟨4, 53⟩]

/-- The line has the vertex that stands twice, seven location points on its edge, and its end. -/
example : (buildDensePolyline meridianDist 9 meridianLine).map Prod.snd =
    some [0, 2, 3, 4, 5, 6, 7, 8, 9] := by
  decide +kernel

theorem encodeOpenlrLine_spec_meridian :
    ∃ n₀ points k leg, (∀ n, n₀ ≤ n →
        encodeOpenlrLine meridianDist (fun _ _ => ()) n meridianLine 0 1 = some points) ∧
      points.map OpenLrLrpInput.distanceToNext = List.replicate k maxDnpMeters ++ [leg, 0] ∧
      leg ≤ maxDnpMeters ∧ (points.map OpenLrLrpInput.distanceToNext).sum = 111195 := by
  obtain ⟨n₀, dense, lrpIndices, points, k, leg, hbuild, -, -, hlegs, -, hleg, hsum, -⟩ :=
    encodeOpenlrLine_spec (fun a b : LonLat ℚ =>
        mul_nonneg (abs_nonneg (b.lat - a.lat)) (by norm_num : (0 : ℚ) ≤ 111195))
      (fun _ _ => ()) ⟨4, 52⟩ ⟨4, 52⟩ [⟨4, 53⟩] 0 1
  refine ⟨n₀, points, k, leg, fun n hn => (hbuild n hn).2, hlegs, hleg, hsum.trans ?_⟩
  norm_num [lineLength, lengthFrom]

end OpenConditions.Openlr

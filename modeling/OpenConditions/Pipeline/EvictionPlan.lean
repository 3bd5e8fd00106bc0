import Mathlib.Algebra.BigOperators.Group.List.Basic
import Mathlib.Tactic.Linarith
import OpenConditions.Pipeline.Eviction

set_option relaxedAutoImplicit false
set_option autoImplicit false

/-!
# What eviction promises

The ladder ends with what its rules keep, and its rules only get harsher.  A cut takes candidates
off the front of their order, where the hot windows come last, until the rest is within the cap or
no candidate is left.

## Main definitions

* `Ladder.Reached` — a place the ladder comes to.
* `plannedKept` — what a plan keeps in this archive.

## Main results

* `climb_reached` — the ladder keeps what its rules keep, by rules that only get harsher.
* `shorten_stops` — a window is shortened until it is the shortest or the archive is within its cap.
* `cut_spec` — a cut takes a front part of the candidates.
* `planEviction_spec` — what a plan evicts and keeps, under every cap.
-/

namespace OpenConditions.Pipeline

/-! ## The ladder -/

section Ladder

variable {bySource : OrderedMap String (List HeldPayload)} {policy : EvictionPolicy}

/-- A place of the ladder comes after another: it keeps what its rules keep, and they are harsher. -/
structure Ladder.Reached (bySource : OrderedMap String (List HeldPayload)) (policy : EvictionPolicy)
    (s s' : Ladder) : Prop where
  keep : s'.keep = keepByTiers bySource policy s'.rules
  harsher : s'.rules.Harsher s.rules
  rung : s'.rung ≤ 2

/-- A shortened window is harsher. -/
theorem shortened_harsher (rules : Rules) (t : ThinnedTier) :
    (rules.shortened t).Harsher rules := by
  refine ⟨fun tier => ?_, by cases t <;> exact dvd_rfl⟩
  cases t <;> cases tier <;> simp [Rules.shortened, ThinDays.of]

/-- Shortening a window comes to harsher rules, of the same buckets. -/
theorem shorten_reached {t : ThinnedTier} {n : ℕ} {s : Ladder}
    (hkeep : s.keep = keepByTiers bySource policy s.rules) (hrung : s.rung ≤ 2) :
    Ladder.Reached bySource policy s (shorten bySource policy t n s) ∧
      (shorten bySource policy t n s).rules.bucketMs = s.rules.bucketMs := by
  induction n generalizing s with
  | zero => exact ⟨⟨hkeep, .refl _, hrung⟩, rfl⟩
  | succ n ih =>
    unfold shorten
    split_ifs with h
    · obtain ⟨hreached, hbucket⟩ :=
        ih (s := ⟨s.rules.shortened t, keepByTiers bySource policy (s.rules.shortened t), 1⟩) rfl
          one_le_two
      refine ⟨⟨hreached.keep, hreached.harsher.trans (shortened_harsher s.rules t), hreached.rung⟩,
        hbucket.trans ?_⟩
      cases t <;> rfl
    · exact ⟨⟨hkeep, .refl _, hrung⟩, rfl⟩

/-- A window is a day shorter than before. -/
theorem daysOver_shortened (t : ThinnedTier) (rules : Rules) :
    daysOver policy t (rules.shortened t) = daysOver policy t rules - 1 := by
  have hdays : (rules.shortened t).thinDays.of t.tier = rules.thinDays.of t.tier - 1 := by
    cases t <;> rfl
  unfold daysOver
  rw [hdays, sub_right_comm, Int.ceil_sub_one]
  omega

/-- **Shortening stops**: as many days as a window is longer than the shortest one are enough to
come to the shortest one, or to an archive within its cap. -/
theorem shorten_stops {t : ThinnedTier} {n : ℕ} {s : Ladder} (hn : daysOver policy t s.rules ≤ n) :
    ¬(overCap policy (shorten bySource policy t n s).keep = true ∧
      (shortest policy : ℚ) < (shorten bySource policy t n s).rules.thinDays.of t.tier) := by
  induction n generalizing s with
  | zero =>
    rintro ⟨-, hlt⟩
    have hle : s.rules.thinDays.of t.tier - shortest policy ≤ 0 := by
      have hceil : ⌈s.rules.thinDays.of t.tier - shortest policy⌉ ≤ 0 := by
        unfold daysOver at hn
        omega
      exact_mod_cast Int.ceil_le.mp hceil
    exact absurd hlt (not_lt.mpr (by simpa [shorten] using hle))
  | succ n ih =>
    unfold shorten
    split_ifs with h
    · refine ih ?_
      rw [daysOver_shortened]
      omega
    · exact h

/-- Thinning by coarser and coarser buckets comes to harsher rules. -/
theorem thinFurther_reached {bs : List ℕ} {s : Ladder}
    (hbs : (s.rules.bucketMs :: bs).IsChain (· ∣ ·))
    (hkeep : s.keep = keepByTiers bySource policy s.rules) (hrung : s.rung ≤ 2) :
    Ladder.Reached bySource policy s (thinFurther bySource policy bs s) := by
  induction bs generalizing s with
  | nil => exact ⟨hkeep, .refl _, hrung⟩
  | cons b bs ih =>
    obtain ⟨hdvd, hbs⟩ := List.isChain_cons_cons.mp hbs
    unfold thinFurther
    split_ifs with h
    · have hreached := ih (s := ⟨{ s.rules with bucketMs := b },
        keepByTiers bySource policy { s.rules with bucketMs := b }, 2⟩) hbs rfl le_rfl
      exact ⟨hreached.keep, hreached.harsher.trans ⟨fun _ => le_rfl, hdvd⟩, hreached.rung⟩
    · exact ⟨hkeep, .refl _, hrung⟩

/-- **The ladder** keeps what its rules keep, and they are harsher than the first. -/
theorem climb_reached (bySource : OrderedMap String (List HeldPayload)) (policy : EvictionPolicy) :
    (climb bySource policy).keep = keepByTiers bySource policy (climb bySource policy).rules ∧
      (climb bySource policy).rules.Harsher (firstRules policy) ∧
      (climb bySource policy).rung ≤ 2 := by
  have hfirst := @shorten_reached bySource policy .observation
    (daysOver policy .observation (firstRules policy))
    ⟨firstRules policy, keepByTiers bySource policy (firstRules policy), 0⟩ rfl (Nat.zero_le 2)
  obtain ⟨hfirst, hbucket⟩ := hfirst
  have hsecond := @shorten_reached bySource policy .situation
    (daysOver policy .situation (shorten bySource policy .observation
      (daysOver policy .observation (firstRules policy))
      ⟨firstRules policy, keepByTiers bySource policy (firstRules policy), 0⟩).rules)
    _ hfirst.keep hfirst.rung
  obtain ⟨hsecond, hbucket'⟩ := hsecond
  have hsize := hbucket'.trans (hbucket.trans (show _ = hourMs from rfl))
  have hthird := @thinFurther_reached bySource policy [6 * hourMs, evictionDayMs] _
    (by rw [hsize]; decide) hsecond.keep hsecond.rung
  exact ⟨hthird.keep, hthird.harsher.trans (hsecond.harsher.trans hfirst.harsher), hthird.rung⟩

end Ladder

/-! ## The cut -/

section Cut

variable {policy : EvictionPolicy}

/-- Removing a payload of this archive leaves its bytes out. -/
theorem localBytes_remove {keep : OrderedSet HeldPayload} {r : HeldPayload}
    (hr : r ∈ keep.members) (hlocal : r.isLocal = true) :
    (localBytes (keep.remove r) : ℤ) = localBytes keep - r.bytesStored := by
  have hmem : r ∈ keep.members.filter HeldPayload.isLocal := List.mem_filter.mpr ⟨hr, hlocal⟩
  have herase : (keep.remove r).members.filter HeldPayload.isLocal =
      (keep.members.filter HeldPayload.isLocal).erase r := by
    change (keep.members.erase r).filter HeldPayload.isLocal = _
    rw [keep.nodup.erase_eq_filter, (keep.nodup.filter _).erase_eq_filter, List.filter_filter,
      List.filter_filter]
    exact List.filter_congr fun x _ => Bool.and_comm _ _
  have hsum := List.sum_map_erase HeldPayload.bytesStored hmem
  unfold localBytes bytes
  rw [herase]
  omega

/-- **A cut** takes candidates off the front, until the rest is within the cap or there are none
left; it is of the third rung once it takes payloads of hot windows, whose sources it tells. -/
theorem cut_spec {rs : List HeldPayload} {c : Cut} (hnodup : rs.Nodup)
    (hrs : ∀ r ∈ rs, r ∈ c.keep.members ∧ r.isLocal = true)
    (htotal : c.total = localBytes c.keep) :
    ∃ done rest, rs = done ++ rest ∧
      (∀ r, r ∈ (cut policy rs c).keep.members ↔ r ∈ c.keep.members ∧ r ∉ done) ∧
      (rest = [] ∨ (localBytes (cut policy rs c).keep : ℚ) ≤ policy.maxBytes) ∧
      (∀ id, id ∈ (cut policy rs c).hotEvicted.members ↔ id ∈ c.hotEvicted.members ∨
        ∃ r ∈ done, policy.inHot r = true ∧ r.sourceId = id) ∧
      (cut policy rs c).rung = if done.any policy.inHot = true then 3 else c.rung := by
  induction rs generalizing c with
  | nil => exact ⟨[], [], rfl, by simp [cut], Or.inl rfl, by simp [cut], rfl⟩
  | cons r rs ih =>
    obtain ⟨hnot, hnodup⟩ := List.nodup_cons.mp hnodup
    obtain ⟨hr, hlocal⟩ := hrs r List.mem_cons_self
    by_cases hcap : (c.total : ℚ) ≤ policy.maxBytes
    · rw [cut, if_pos hcap]
      refine ⟨[], r :: rs, rfl, by simp, Or.inr ?_, by simp, rfl⟩
      rw [htotal] at hcap
      exact_mod_cast hcap
    · rw [cut, if_neg hcap]
      have hrs' : ∀ x ∈ rs, x ∈ (c.evict policy r).keep.members ∧ x.isLocal = true := fun x hx =>
        ⟨OrderedSet.mem_remove.mpr ⟨fun hxr => hnot (hxr ▸ hx),
          (hrs x (List.mem_cons_of_mem r hx)).1⟩, (hrs x (List.mem_cons_of_mem r hx)).2⟩
      have htotal' : (c.evict policy r).total = localBytes (c.evict policy r).keep := by
        change c.total - r.bytesStored = localBytes (c.keep.remove r)
        rw [htotal, localBytes_remove hr hlocal]
      obtain ⟨done, rest, hsplit, hkeep, hrest, hhot, hrung⟩ := ih hnodup hrs' htotal'
      refine ⟨r :: done, rest, by rw [hsplit, List.cons_append], fun x => ?_, hrest, fun id => ?_, ?_⟩
      · rw [hkeep, Cut.evict, OrderedSet.mem_remove, List.mem_cons, not_or]
        tauto
      · rw [hhot, Cut.evict, List.exists_mem_cons_iff]
        by_cases hin : policy.inHot r = true
        · simp only [hin, if_true, OrderedSet.mem_add, true_and, or_assoc, eq_comm (a := id)]
        · simp only [hin, if_false, false_and, false_or, Bool.false_eq_true]
      · rw [hrung, Cut.evict, List.any_cons]
        by_cases hin : policy.inHot r = true
        · simp [hin]
        · simp [hin]

end Cut

/-! ## The plan -/

section Plan

variable {rows : List HeldPayload} {policy : EvictionPolicy}

/-- The candidates are the kept payloads of this archive that are neither protected nor among their
source's newest. -/
theorem mem_candidates {keep : OrderedSet HeldPayload} {r : HeldPayload} :
    r ∈ candidates (newestFirstBySource rows) policy keep ↔
      r ∈ keep.members ∧ r.isLocal = true ∧ r.isProtected = false ∧ ¬IsNewest rows r := by
  rw [candidates, Sorting.mem_sortBy, List.mem_filter]
  simp only [Bool.and_eq_true, Bool.not_eq_true', decide_eq_true_eq, mem_untouchable, and_assoc]

/-- No candidate of a hot window stands before one that is of none. -/
theorem inHot_of_pairwise {keep : OrderedSet HeldPayload} :
    (candidates (newestFirstBySource rows) policy keep).Pairwise fun a b =>
      policy.inHot a = true → policy.inHot b = true := by
  have horders : Sorting.OrdersBy (cutFirst policy) := by
    constructor
    · intro a b
      simp only [cutFirst, decide_eq_true_eq]
      omega
    · intro a b c hab hbc
      simp only [cutFirst, decide_eq_true_eq] at hab hbc ⊢
      omega
  refine (Sorting.sortBy_pairwise horders _).imp fun {a b} hab ha => ?_
  simp only [cutFirst, decide_eq_true_eq, ha, Bool.toNat_true] at hab
  by_contra hb
  rw [Bool.not_eq_true] at hb
  rw [hb, Bool.toNat_false] at hab
  omega

/-- The candidates stand once each. -/
theorem nodup_candidates {bySource : OrderedMap String (List HeldPayload)}
    {keep : OrderedSet HeldPayload} : (candidates bySource policy keep).Nodup :=
  (Sorting.sortBy_perm _ _).nodup_iff.mpr (keep.nodup.filter _)

/-- **What is left** is what the ladder keeps but some candidates: all of them, or as many as bring
the rest within the cap, those of hot windows last. -/
theorem planned_spec (rows : List HeldPayload) (policy : EvictionPolicy) :
    ∃ done : List HeldPayload, (∀ r ∈ done, r ∈ candidates (newestFirstBySource rows) policy
        (climb (newestFirstBySource rows) policy).keep) ∧
      (∀ r, r ∈ (planned rows policy).keep.members ↔
        r ∈ (climb (newestFirstBySource rows) policy).keep.members ∧ r ∉ done) ∧
      (0 < policy.maxBytes → (localBytes (planned rows policy).keep : ℚ) ≤ policy.maxBytes ∨
        ∀ r ∈ candidates (newestFirstBySource rows) policy
          (climb (newestFirstBySource rows) policy).keep, r ∈ done) ∧
      (∀ r ∈ done, policy.inHot r = true → ∀ q ∈ candidates (newestFirstBySource rows) policy
        (climb (newestFirstBySource rows) policy).keep, q ∉ done → policy.inHot q = true) ∧
      (∀ id, id ∈ (planned rows policy).hotEvicted.members ↔
        ∃ r ∈ done, policy.inHot r = true ∧ r.sourceId = id) ∧
      (done.any policy.inHot = true → (planned rows policy).rung = 3) := by
  unfold planned
  dsimp only
  split_ifs with hover
  · obtain ⟨done, rest, hsplit, hkeep, hrest, hhot, hrung⟩ := cut_spec
      (c := ⟨(climb (newestFirstBySource rows) policy).keep,
        localBytes (climb (newestFirstBySource rows) policy).keep,
        (climb (newestFirstBySource rows) policy).rung, .empty⟩) nodup_candidates
      (fun r hr => ⟨(Iff.mp mem_candidates hr).1, (Iff.mp mem_candidates hr).2.1⟩) rfl
    refine ⟨done, fun r hr => ?_, hkeep, fun _ => ?_, fun r hr hin q hq hnot => ?_, fun id => ?_,
      fun hany => ?_⟩
    · rw [hsplit]
      exact List.mem_append_left _ hr
    · refine hrest.symm.imp id fun hnone r hr => ?_
      rw [hsplit, hnone, List.append_nil] at hr
      exact hr
    · have hpairs := @inHot_of_pairwise rows policy (climb (newestFirstBySource rows) policy).keep
      rw [hsplit] at hpairs hq
      exact (List.pairwise_append.mp hpairs).2.2 r hr q
        ((List.mem_append.mp hq).resolve_left hnot) hin
    · rw [hhot]
      simp [OrderedSet.empty]
    · rw [hrung, if_pos hany]
  · refine ⟨[], by simp, by simp, fun hpos => Or.inl ?_, by simp, by simp [OrderedSet.empty], by simp⟩
    rw [overCap, decide_eq_true_eq, not_and, not_lt] at hover
    exact hover hpos

/-- What a plan keeps in this archive. -/
def plannedKept (rows : List HeldPayload) (policy : EvictionPolicy) : OrderedSet HeldPayload :=
  OrderedSet.ofList (rows.filter fun r =>
    r.isLocal && decide (r ∉ (planEviction rows policy).evict))

/-- What is evicted lies in this archive and is not kept. -/
theorem mem_evict {r : HeldPayload} :
    r ∈ (planEviction rows policy).evict ↔
      r ∈ rows ∧ r.isLocal = true ∧ r ∉ (planned rows policy).keep.members := by
  rw [planEviction, List.mem_filter, Bool.and_eq_true, decide_eq_true_eq]

/-- What a plan keeps in this archive is what is left there. -/
theorem mem_plannedKept {r : HeldPayload} :
    r ∈ (plannedKept rows policy).members ↔
      r ∈ rows ∧ r.isLocal = true ∧ r ∈ (planned rows policy).keep.members := by
  rw [plannedKept, OrderedSet.mem_ofList, List.mem_filter, Bool.and_eq_true, decide_eq_true_eq,
    mem_evict]
  tauto

/-- What the ladder keeps are rows. -/
theorem mem_rows_of_mem_climb {r : HeldPayload}
    (hr : r ∈ (climb (newestFirstBySource rows) policy).keep.members) : r ∈ rows := by
  rw [(climb_reached _ policy).1] at hr
  exact (mem_newestOf.mp (mem_of_mem_keepOfSource (mem_keepByTiers.mp hr))).1

/-- The bytes a plan keeps in this archive are those of what is left there. -/
theorem bytes_plannedKept :
    bytes (plannedKept rows policy).members = localBytes (planned rows policy).keep := by
  obtain ⟨done, -, hkeep, -⟩ := planned_spec rows policy
  refine ((List.perm_ext_iff_of_nodup (plannedKept rows policy).nodup
    ((planned rows policy).keep.nodup.filter _)).mpr fun r => ?_).map _ |>.sum_eq
  rw [mem_plannedKept, List.mem_filter]
  constructor
  · exact fun h => ⟨h.2.2, h.2.1⟩
  · exact fun h => ⟨mem_rows_of_mem_climb ((hkeep r).mp h.1).1, h.2, h.1⟩

/-- **Eviction keeps what it promises** under every cap: it never evicts a protected payload, one of
its source's newest or one of another archive; what it keeps here is within the cap, unless all of
it is protected or among the newest; payloads of hot windows that the tiers keep go last, by the
third rung, which tells their sources, and otherwise no source is told; and what harsher rules keep
is a part of what milder ones keep. -/
theorem planEviction_spec (rows : List HeldPayload) (policy : EvictionPolicy) :
    (∀ r ∈ (planEviction rows policy).evict,
      r.isProtected = false ∧ ¬IsNewest rows r ∧ r.isLocal = true) ∧
    (0 < policy.maxBytes → (bytes (plannedKept rows policy).members : ℚ) ≤ policy.maxBytes ∨
      ∀ r ∈ (plannedKept rows policy).members, r.isProtected = true ∨ IsNewest rows r) ∧
    (∀ r ∈ (planEviction rows policy).evict, ∀ rules, policy.inHot r = true →
      r ∈ (keepByTiers (newestFirstBySource rows) policy rules).members →
        (∀ q ∈ (plannedKept rows policy).members, q.isProtected = false → ¬IsNewest rows q →
          policy.inHot q = true) ∧
        r.sourceId ∈ (planEviction rows policy).hotEvicted ∧ (planEviction rows policy).rung = 3) ∧
    ((∀ r ∈ (planEviction rows policy).evict, ∀ rules, policy.inHot r = true →
      r ∉ (keepByTiers (newestFirstBySource rows) policy rules).members) →
        (planEviction rows policy).hotEvicted = []) ∧
    ((climb (newestFirstBySource rows) policy).rules.Harsher (firstRules policy) ∧
      ∀ harsh mild : Rules, harsh.Harsher mild →
        (keepByTiers (newestFirstBySource rows) policy harsh).members ⊆
          (keepByTiers (newestFirstBySource rows) policy mild).members) := by
  obtain ⟨done, hdone, hkeep, hcap, hlast, hhot, hrung⟩ := planned_spec rows policy
  obtain ⟨hclimb, hharsher, -⟩ := climb_reached (newestFirstBySource rows) policy
  -- what the tiers keep under any rules and the plan does not keep was cut
  have hcut : ∀ r ∈ (planEviction rows policy).evict,
      r ∈ (climb (newestFirstBySource rows) policy).keep.members → r ∈ done := fun r hr hclimb => by
    by_contra hnot
    exact (Iff.mp mem_evict hr).2.2 ((hkeep r).mpr ⟨hclimb, hnot⟩)
  refine ⟨fun r hr => ?_, fun hpos => ?_, fun r hr rules hin htiers => ?_, fun hnone => ?_, hharsher,
    fun harsh mild h r hr => keepByTiers_subset h hr⟩
  · obtain ⟨hrow, hlocal, -⟩ := Iff.mp mem_evict hr
    have hnever : r ∈ (climb (newestFirstBySource rows) policy).keep.members →
        r.isProtected = false ∧ ¬IsNewest rows r := fun hmem =>
      (Iff.mp mem_candidates (hdone r (hcut r hr hmem))).2.2
    rw [hclimb] at hnever
    refine ⟨?_, fun hnewest => ?_, hlocal⟩
    · by_contra hprotected
      rw [Bool.not_eq_false] at hprotected
      rw [(hnever (mem_keepByTiers_of_keep hrow (Or.inl hprotected))).1] at hprotected
      cases hprotected
    · exact (hnever (mem_keepByTiers_of_newest hnewest)).2 hnewest
  · rw [bytes_plannedKept]
    refine (hcap hpos).imp id fun hall r hr => ?_
    obtain ⟨hrow, hlocal, hleft⟩ := Iff.mp mem_plannedKept hr
    obtain ⟨hmem, hnot⟩ := (hkeep r).mp hleft
    by_contra hneither
    rw [not_or, Bool.not_eq_true] at hneither
    exact hnot (hall r (Iff.mpr mem_candidates ⟨hmem, hlocal, hneither.1, hneither.2⟩))
  · have hmem : r ∈ (climb (newestFirstBySource rows) policy).keep.members := by
      rw [hclimb]
      exact mem_keepByTiers_of_inHot hin htiers
    have hrdone := hcut r hr hmem
    refine ⟨fun q hq hprotected hnewest => ?_, ?_, ?_⟩
    · obtain ⟨-, hlocal, hleft⟩ := Iff.mp mem_plannedKept hq
      obtain ⟨hqmem, hnot⟩ := (hkeep q).mp hleft
      exact hlast r hrdone hin q (Iff.mpr mem_candidates ⟨hqmem, hlocal, hprotected, hnewest⟩) hnot
    · exact Sorting.mem_sortBy.mpr ((hhot r.sourceId).mpr ⟨r, hrdone, hin, rfl⟩)
    · exact hrung (List.any_eq_true.mpr ⟨r, hrdone, hin⟩)
  · refine List.eq_nil_iff_forall_not_mem.mpr fun id hid => ?_
    obtain ⟨r, hrdone, hin, -⟩ := (hhot id).mp (Sorting.mem_sortBy.mp hid)
    obtain ⟨hmem, hlocal, -⟩ := Iff.mp mem_candidates (hdone r hrdone)
    refine hnone r (Iff.mpr mem_evict ⟨mem_rows_of_mem_climb hmem, hlocal, fun hleft =>
      ((hkeep r).mp hleft).2 hrdone⟩) (climb (newestFirstBySource rows) policy).rules hin ?_
    rw [hclimb] at hmem
    exact hmem

end Plan

end OpenConditions.Pipeline

import Mathlib.Algebra.Order.Ring.Rat
import Mathlib.Data.Rat.Floor
import Mathlib.Data.List.Induction
import Mathlib.Data.List.Perm.Basic
import OpenConditions.Lib.OrderedMap
import OpenConditions.Lib.OrderedSet
import OpenConditions.Lib.Sorting
import OpenConditions.Lib.Thinning
import OpenConditions.Lib.Utf16

set_option relaxedAutoImplicit false
set_option autoImplicit false

/-!
# The eviction of raw payloads

Which payloads of the archive are kept and which are evicted (`services/ingest/src/raw/evict.ts`).
The tiers keep each source's newest three and what is protected, the hot window, and of older
payloads one in each bucket of the thinned windows.  While what is kept is over the cap, a ladder
shortens the thinned windows, then coarsens their buckets; at last what is left is cut, the hot
window after everything else.

## Main definitions

* `HeldPayload`, `EvictionPolicy`, `Rules` — payloads, the policy, and the rules of a rung.
* `newestFirstBySource`, `keepByTiers` — what the tiers keep.
* `shorten`, `thinFurther`, `climb` — the ladder.
* `cut`, `planEviction` — the cut, and the plan.
* `Rules.Harsher` — shorter windows and coarser buckets.

## Main results

* `mem_entries_iff` — each source has its own payloads, newest first.
* `keepByTiers_subset` — harsher rules keep a part of what milder ones keep.
* `mem_keepByTiers_of_inHot` — what is kept of a hot window is kept under any rules.
-/

namespace OpenConditions.Pipeline

/-! ## Payloads -/

/-- Milliseconds of an hour. -/
def hourMs : ℕ := 3600000

/-- Milliseconds of a day. -/
def evictionDayMs : ℕ := 86400000

/-- What a payload is worth keeping for. -/
inductive RawTier where
  | hot
  | reference
  | situation
  | observation
  deriving DecidableEq, Repr

/-- One archived payload as eviction sees it; `object` tells payloads apart that agree in all
else. -/
structure HeldPayload where
  object : ℕ
  sourceId : String
  tier : RawTier
  lastSeenAt : ℤ
  bytesStored : ℕ
  isProtected : Bool
  /-- Not said of most payloads, which lie in this archive. -/
  inArchive : Option Bool := none
  deriving DecidableEq, Repr

/-- A payload lies in this archive unless it is said not to. -/
def HeldPayload.isLocal (r : HeldPayload) : Bool := decide (r.inArchive ≠ some false)

/-- For how many days each tier is thinned. -/
structure ThinDays where
  situation : ℚ
  observation : ℚ
  deriving DecidableEq, Repr

/-- The days of a tier that is thinned. -/
def ThinDays.of (days : ThinDays) : RawTier → ℚ
  | .situation => days.situation
  | _ => days.observation

/-- What the archive is to keep. -/
structure EvictionPolicy where
  now : ℤ
  hotHours : ℚ
  thinDays : ThinDays
  /-- How many bytes the archive may hold; without a cap when it is zero. -/
  maxBytes : ℚ

/-- The rules of a rung: the thinned windows, and the size of their buckets. -/
structure Rules where
  thinDays : ThinDays
  bucketMs : ℕ
  deriving DecidableEq, Repr

/-- How many payloads every source keeps however old. -/
def alwaysNewest : ℕ := 3

/-! ## What the tiers keep -/

/-- Whether a payload is in the hot window. -/
def EvictionPolicy.inHot (policy : EvictionPolicy) (r : HeldPayload) : Bool :=
  decide (((policy.now - r.lastSeenAt : ℤ) : ℚ) ≤ policy.hotHours * hourMs)

/-- What becomes of a payload by its place among its source's. -/
def verdict (policy : EvictionPolicy) (rules : Rules) (item : HeldPayload × ℕ) :
    Thinning.Verdict :=
  let r := item.1
  if item.2 < alwaysNewest ∨ r.isProtected = true then .keep
  else if r.tier = .reference then .drop
  else if policy.inHot r = true then .keep
  else if r.tier = .hot then .drop
  else if rules.thinDays.of r.tier * evictionDayMs < ((policy.now - r.lastSeenAt : ℤ) : ℚ) then .drop
  else .thin

/-- The bucket of a payload. -/
def bucket (rules : Rules) (item : HeldPayload × ℕ) : RawTier × ℤ :=
  (item.1.tier, item.1.lastSeenAt / rules.bucketMs)

/-- What the tiers keep of one source's payloads. -/
def keepOfSource (policy : EvictionPolicy) (rules : Rules) (list : List HeldPayload) :
    List HeldPayload :=
  (Thinning.keepFirst (verdict policy rules) (bucket rules) [] list.zipIdx).map Prod.fst

/-- What the tiers keep under some rules. -/
def keepByTiers (bySource : OrderedMap String (List HeldPayload)) (policy : EvictionPolicy)
    (rules : Rules) : OrderedSet HeldPayload :=
  OrderedSet.ofList (bySource.entries.flatMap fun entry => keepOfSource policy rules entry.2)

/-- Newer payloads first. -/
def newerFirst (a b : HeldPayload) : Bool := decide (b.lastSeenAt ≤ a.lastSeenAt)

/-- Each source's payloads, as they stand. -/
def bySourceId (rows : List HeldPayload) : OrderedMap String (List HeldPayload) :=
  rows.foldl (fun m r => m.set r.sourceId ((m.get r.sourceId).getD [] ++ [r])) .empty

/-- Each source's payloads, newest first. -/
def newestFirstBySource (rows : List HeldPayload) : OrderedMap String (List HeldPayload) :=
  (bySourceId rows).mapValues fun _ list => Sorting.sortBy newerFirst list

/-! ## The ladder -/

/-- The bytes of some payloads. -/
def bytes (rows : List HeldPayload) : ℕ := (rows.map HeldPayload.bytesStored).sum

/-- The bytes of what is kept in this archive. -/
def localBytes (keep : OrderedSet HeldPayload) : ℕ :=
  bytes (keep.members.filter HeldPayload.isLocal)

/-- Whether the archive is over its cap. -/
def overCap (policy : EvictionPolicy) (keep : OrderedSet HeldPayload) : Bool :=
  decide (0 < policy.maxBytes ∧ policy.maxBytes < localBytes keep)

/-- A place on the ladder: the rules, what they keep, and the rung. -/
structure Ladder where
  rules : Rules
  keep : OrderedSet HeldPayload
  rung : ℕ

/-- The shortest thinned window, in days from now. -/
def shortest (policy : EvictionPolicy) : ℤ := ⌈policy.hotHours / 24⌉ + 1

/-- The tiers whose windows are shortened. -/
inductive ThinnedTier where
  | observation
  | situation
  deriving DecidableEq, Repr

/-- The tier. -/
def ThinnedTier.tier : ThinnedTier → RawTier
  | .observation => .observation
  | .situation => .situation

/-- A tier's window is shortened by a day. -/
def Rules.shortened (rules : Rules) : ThinnedTier → Rules
  | .observation =>
    { rules with thinDays := { rules.thinDays with observation := rules.thinDays.observation - 1 } }
  | .situation =>
    { rules with thinDays := { rules.thinDays with situation := rules.thinDays.situation - 1 } }

section Ladder

variable (bySource : OrderedMap String (List HeldPayload)) (policy : EvictionPolicy)

/-- Shortens a tier's window a day at a time, at most a number of times. -/
def shorten (t : ThinnedTier) : ℕ → Ladder → Ladder
  | 0, s => s
  | n + 1, s =>
    if overCap policy s.keep = true ∧ (shortest policy : ℚ) < s.rules.thinDays.of t.tier then
      let rules := s.rules.shortened t
      shorten t n ⟨rules, keepByTiers bySource policy rules, 1⟩
    else s

/-- How many days a tier's window is longer than the shortest one. -/
def daysOver (t : ThinnedTier) (rules : Rules) : ℕ :=
  ⌈rules.thinDays.of t.tier - shortest policy⌉.toNat

/-- Thins by coarser buckets. -/
def thinFurther : List ℕ → Ladder → Ladder
  | [], s => s
  | b :: bs, s =>
    if overCap policy s.keep = true then
      let rules := { s.rules with bucketMs := b }
      thinFurther bs ⟨rules, keepByTiers bySource policy rules, 2⟩
    else s

/-- The rules before the cap is looked at. -/
def firstRules : Rules := ⟨policy.thinDays, hourMs⟩

/-- The ladder, while the archive is over its cap. -/
def climb : Ladder :=
  let s := ⟨firstRules policy, keepByTiers bySource policy (firstRules policy), 0⟩
  let s := shorten bySource policy .observation (daysOver policy .observation s.rules) s
  let s := shorten bySource policy .situation (daysOver policy .situation s.rules) s
  thinFurther bySource policy [6 * hourMs, evictionDayMs] s

end Ladder

/-! ## The cut -/

/-- What a cut has left, and which sources lost payloads of their hot windows. -/
structure Cut where
  keep : OrderedSet HeldPayload
  total : ℤ
  rung : ℕ
  hotEvicted : OrderedSet String

/-- Payloads that every source keeps however old. -/
def untouchable (bySource : OrderedMap String (List HeldPayload)) : OrderedSet HeldPayload :=
  OrderedSet.ofList (bySource.entries.flatMap fun entry => entry.2.take alwaysNewest)

/-- The place of a tier in the cut. -/
def RawTier.order : RawTier → ℕ
  | .observation => 0
  | .hot => 1
  | .situation => 2
  | .reference => 3

/-- Which of two payloads is cut first: those of the hot window last, then by tier, then the oldest
first. -/
def cutFirst (policy : EvictionPolicy) (a b : HeldPayload) : Bool :=
  let key := fun r : HeldPayload => ((policy.inHot r).toNat, r.tier.order, r.lastSeenAt)
  let x := key a
  let y := key b
  decide (x.1 < y.1 ∨ x.1 = y.1 ∧ (x.2.1 < y.2.1 ∨ x.2.1 = y.2.1 ∧ x.2.2 ≤ y.2.2))

/-- What may be cut, in the order of the cut. -/
def candidates (bySource : OrderedMap String (List HeldPayload)) (policy : EvictionPolicy)
    (keep : OrderedSet HeldPayload) : List HeldPayload :=
  Sorting.sortBy (cutFirst policy) (keep.members.filter fun r =>
    r.isLocal && !r.isProtected && decide (r ∉ (untouchable bySource).members))

/-- Evicts one payload. -/
def Cut.evict (c : Cut) (policy : EvictionPolicy) (r : HeldPayload) : Cut where
  keep := c.keep.remove r
  total := c.total - r.bytesStored
  rung := if policy.inHot r = true then 3 else c.rung
  hotEvicted := if policy.inHot r = true then c.hotEvicted.add r.sourceId else c.hotEvicted

/-- Evicts one payload after the other until the rest is within the cap. -/
def cut (policy : EvictionPolicy) : List HeldPayload → Cut → Cut
  | [], c => c
  | r :: rs, c => if (c.total : ℚ) ≤ policy.maxBytes then c else cut policy rs (c.evict policy r)

/-- What is evicted, by which rung, and which sources lost payloads of their hot windows. -/
structure EvictionPlan where
  evict : List HeldPayload
  rung : ℕ
  hotEvicted : List String
  deriving DecidableEq, Repr

/-- What is left of the archive when it is planned. -/
def planned (rows : List HeldPayload) (policy : EvictionPolicy) : Cut :=
  let bySource := newestFirstBySource rows
  let s := climb bySource policy
  let c : Cut := ⟨s.keep, localBytes s.keep, s.rung, .empty⟩
  if overCap policy s.keep = true then cut policy (candidates bySource policy s.keep) c else c

/-- Which payloads to evict. -/
def planEviction (rows : List HeldPayload) (policy : EvictionPolicy) : EvictionPlan :=
  let c := planned rows policy
  ⟨rows.filter fun r => r.isLocal && decide (r ∉ c.keep.members), c.rung,
    Sorting.sortBy (fun a b => decide (Utf16.codeUnits a ≤ Utf16.codeUnits b)) c.hotEvicted.members⟩

/-! ## Verdicts -/

section Tiers

variable {policy : EvictionPolicy} {rules : Rules} {item : HeldPayload × ℕ}

/-- The newest, the protected and the hot windows are kept under any rules. -/
theorem verdict_eq_keep_iff :
    verdict policy rules item = .keep ↔
      (item.2 < alwaysNewest ∨ item.1.isProtected = true) ∨
        item.1.tier ≠ .reference ∧ policy.inHot item.1 = true := by
  unfold verdict
  dsimp only
  split_ifs <;> simp_all

/-- Payloads of the thinned windows are thinned. -/
theorem verdict_eq_thin_iff :
    verdict policy rules item = .thin ↔
      ¬(item.2 < alwaysNewest ∨ item.1.isProtected = true) ∧ item.1.tier ≠ .reference ∧
        policy.inHot item.1 = false ∧ item.1.tier ≠ .hot ∧
        ((policy.now - item.1.lastSeenAt : ℤ) : ℚ) ≤
          rules.thinDays.of item.1.tier * evictionDayMs := by
  unfold verdict
  dsimp only
  split_ifs with hkept href hhot htier hold
  · simp [hkept]
  · simp [href]
  · simp [hhot]
  · simp [htier]
  · exact ⟨fun h => (by cases h), fun h => absurd h.2.2.2.2 (not_le.mpr hold)⟩
  · simp only [true_iff]
    exact ⟨hkept, href, Bool.eq_false_iff.mpr hhot, htier, not_lt.mp hold⟩

/-- Rules with shorter windows and coarser buckets. -/
structure Rules.Harsher (harsh mild : Rules) : Prop where
  days : ∀ tier, harsh.thinDays.of tier ≤ mild.thinDays.of tier
  buckets : mild.bucketMs ∣ harsh.bucketMs

/-- Any rules are as harsh as themselves. -/
theorem Rules.Harsher.refl (rules : Rules) : rules.Harsher rules :=
  ⟨fun _ => le_rfl, dvd_rfl⟩

/-- Harsher rules than harsher rules are harsher. -/
theorem Rules.Harsher.trans {r₁ r₂ r₃ : Rules} (h : r₁.Harsher r₂) (h' : r₂.Harsher r₃) :
    r₁.Harsher r₃ :=
  ⟨fun tier => (h.days tier).trans (h'.days tier), h'.buckets.trans h.buckets⟩

variable {harsh mild : Rules}

/-- Payloads of one bucket are of one coarser bucket. -/
theorem bucket_eq_of_harsher (h : harsh.Harsher mild) {x y : HeldPayload × ℕ}
    (hxy : bucket mild x = bucket mild y) : bucket harsh x = bucket harsh y := by
  obtain ⟨k, hk⟩ := h.buckets
  obtain ⟨htier, hbucket⟩ := Prod.mk.inj hxy
  refine Prod.ext htier ?_
  have hsplit : ∀ t : ℤ, t / (harsh.bucketMs : ℤ) = t / mild.bucketMs / k := fun t => by
    rw [hk, Nat.cast_mul, Int.ediv_ediv_of_nonneg (Int.natCast_nonneg _)]
  change x.1.lastSeenAt / (harsh.bucketMs : ℤ) = y.1.lastSeenAt / harsh.bucketMs
  rw [hsplit, hsplit, hbucket]

/-- A newer payload of a bucket is thinned when an older one is. -/
theorem verdict_thin_of_older {x y : HeldPayload × ℕ}
    (hnewer : y.1.lastSeenAt ≤ x.1.lastSeenAt) (hx : verdict policy mild x = .thin)
    (hy : verdict policy harsh y = .thin) (hxy : bucket mild x = bucket mild y) :
    verdict policy harsh x = .thin := by
  obtain ⟨hnot, href, hcold, hhot, -⟩ := Iff.mp verdict_eq_thin_iff hx
  obtain ⟨-, -, -, -, hage⟩ := Iff.mp verdict_eq_thin_iff hy
  have htier : x.1.tier = y.1.tier := (Prod.mk.inj hxy).1
  refine Iff.mpr verdict_eq_thin_iff ⟨hnot, href, hcold, hhot, ?_⟩
  rw [htier]
  refine le_trans ?_ hage
  exact_mod_cast (by omega : policy.now - x.1.lastSeenAt ≤ policy.now - y.1.lastSeenAt)

/-- **Harsher rules keep less** of one source's payloads, newest first. -/
theorem keepOfSource_subset (h : harsh.Harsher mild) {list : List HeldPayload}
    (hsorted : list.Pairwise fun a b => b.lastSeenAt ≤ a.lastSeenAt) :
    keepOfSource policy harsh list ⊆ keepOfSource policy mild list := by
  refine List.map_subset _ (Thinning.keepFirst_subset (fun x _ hx => ?_) (fun x _ hx => ?_)
    (fun x _ y _ hxy => bucket_eq_of_harsher h hxy) ?_ fun x _ _ hx => (by cases hx))
  · exact Iff.mpr verdict_eq_keep_iff (Iff.mp verdict_eq_keep_iff hx)
  · obtain ⟨hnot, href, hcold, hhot, hage⟩ := Iff.mp verdict_eq_thin_iff hx
    refine Iff.mpr verdict_eq_thin_iff ⟨hnot, href, hcold, hhot, hage.trans ?_⟩
    exact mul_le_mul_of_nonneg_right (h.days _) (by positivity)
  · have hzip : (list.zipIdx.map Prod.fst).Pairwise fun a b => b.lastSeenAt ≤ a.lastSeenAt := by
      rwa [List.zipIdx_map_fst]
    refine (List.pairwise_map.mp hzip).imp fun hnewer hx hy hxy => ?_
    exact verdict_thin_of_older hnewer hx hy hxy

/-- What the tiers keep of one source's payloads is among them. -/
theorem mem_of_mem_keepOfSource {list : List HeldPayload} {r : HeldPayload}
    (h : r ∈ keepOfSource policy rules list) : r ∈ list := by
  obtain ⟨item, hitem, rfl⟩ := List.mem_map.mp h
  obtain ⟨x, i⟩ := item
  exact List.fst_mem_of_mem_zipIdx (Thinning.keepFirst_sublist.subset hitem)

/-- What the verdict on a payload is to keep is kept. -/
theorem mem_keepOfSource {list : List HeldPayload} {r : HeldPayload} {i : ℕ}
    (hr : list[i]? = some r) (hkeep : verdict policy rules (r, i) = .keep) :
    r ∈ keepOfSource policy rules list :=
  List.mem_map.mpr ⟨(r, i), Thinning.mem_keepFirst_of_keep
    (List.mem_zipIdx_iff_getElem?.mpr hr) hkeep, rfl⟩

end Tiers

/-! ## Sources -/

section Sources

variable {rows : List HeldPayload} {policy : EvictionPolicy} {rules harsh mild : Rules}

/-- The payloads of a source, as they stand. -/
def ofSource (rows : List HeldPayload) (id : String) : List HeldPayload :=
  rows.filter fun r => decide (r.sourceId = id)

/-- A source with payloads has them, in their order. -/
theorem get_bySourceId (rows : List HeldPayload) (id : String) :
    (bySourceId rows).get id = if ofSource rows id = [] then none else some (ofSource rows id) := by
  induction rows using List.reverseRecOn with
  | nil => rfl
  | append_singleton rows r ih =>
    have hfold : bySourceId (rows ++ [r]) = (bySourceId rows).set r.sourceId
        (((bySourceId rows).get r.sourceId).getD [] ++ [r]) := by
      simp only [bySourceId, List.foldl_append, List.foldl_cons, List.foldl_nil]
    have hof : ofSource (rows ++ [r]) id =
        ofSource rows id ++ if r.sourceId = id then [r] else [] := by
      rw [ofSource, List.filter_append, List.filter_singleton]
      by_cases hid : r.sourceId = id <;> simp [ofSource, hid]
    rw [hfold, OrderedMap.get_set, hof]
    by_cases hid : r.sourceId = id
    · subst hid
      rw [ih]
      by_cases hnone : ofSource rows r.sourceId = []
      · simp [hnone]
      · simp [hnone]
    · rw [if_neg (Ne.symm hid), ih, if_neg hid, List.append_nil]

/-- A source's payloads, newest first. -/
def newestOf (rows : List HeldPayload) (id : String) : List HeldPayload :=
  Sorting.sortBy newerFirst (ofSource rows id)

/-- A payload is among the newest of its source. -/
def IsNewest (rows : List HeldPayload) (r : HeldPayload) : Prop :=
  r ∈ (newestOf rows r.sourceId).take alwaysNewest

/-- The sources are those with payloads, each with its own, newest first. -/
theorem mem_entries_iff {entry : String × List HeldPayload} :
    entry ∈ (newestFirstBySource rows).entries ↔
      ofSource rows entry.1 ≠ [] ∧ entry.2 = newestOf rows entry.1 := by
  obtain ⟨id, list⟩ := entry
  rw [← OrderedMap.get_eq_some_iff, newestFirstBySource, OrderedMap.get_mapValues, get_bySourceId]
  by_cases hnone : ofSource rows id = []
  · simp [hnone]
  · simp [hnone, newestOf, eq_comm]

/-- The payloads of a source are rows of it. -/
theorem mem_newestOf {id : String} {r : HeldPayload} :
    r ∈ newestOf rows id ↔ r ∈ rows ∧ r.sourceId = id := by
  rw [newestOf, Sorting.mem_sortBy, ofSource, List.mem_filter, decide_eq_true_eq]

/-- A source's payloads stand newest first. -/
theorem pairwise_newestOf (id : String) :
    (newestOf rows id).Pairwise fun a b => b.lastSeenAt ≤ a.lastSeenAt := by
  have horders : Sorting.OrdersBy newerFirst :=
    { total := fun a b => by
        simpa [newerFirst] using le_total b.lastSeenAt a.lastSeenAt
      trans := fun a b c hab hbc => by
        simp only [newerFirst, decide_eq_true_eq] at hab hbc ⊢
        exact hbc.trans hab }
  exact (Sorting.sortBy_pairwise horders _).imp of_decide_eq_true

/-- The source of a row is one of them. -/
theorem entry_of_mem {r : HeldPayload} (hr : r ∈ rows) :
    (r.sourceId, newestOf rows r.sourceId) ∈ (newestFirstBySource rows).entries :=
  Iff.mpr mem_entries_iff ⟨List.ne_nil_of_mem (List.mem_filter.mpr ⟨hr, decide_eq_true rfl⟩), rfl⟩

/-- What the tiers keep is what they keep of each source. -/
theorem mem_keepByTiers {r : HeldPayload} :
    r ∈ (keepByTiers (newestFirstBySource rows) policy rules).members ↔
      r ∈ keepOfSource policy rules (newestOf rows r.sourceId) := by
  rw [keepByTiers, OrderedSet.mem_ofList, List.mem_flatMap]
  constructor
  · rintro ⟨entry, hentry, hr⟩
    obtain ⟨-, hlist⟩ := Iff.mp mem_entries_iff hentry
    rw [hlist] at hr
    rwa [(Iff.mp mem_newestOf (mem_of_mem_keepOfSource hr)).2]
  · intro hr
    exact ⟨_, entry_of_mem (Iff.mp mem_newestOf (mem_of_mem_keepOfSource hr)).1, hr⟩

/-- The rows that no cut touches are the newest of each source. -/
theorem mem_untouchable {r : HeldPayload} :
    r ∈ (untouchable (newestFirstBySource rows)).members ↔ IsNewest rows r := by
  rw [untouchable, OrderedSet.mem_ofList, List.mem_flatMap]
  constructor
  · rintro ⟨entry, hentry, hr⟩
    obtain ⟨-, hlist⟩ := Iff.mp mem_entries_iff hentry
    rw [hlist] at hr
    unfold IsNewest
    rwa [(Iff.mp mem_newestOf (List.mem_of_mem_take hr)).2]
  · intro hr
    exact ⟨_, entry_of_mem (Iff.mp mem_newestOf (List.mem_of_mem_take hr)).1, hr⟩

/-- **Harsher rules keep a part** of what milder ones keep. -/
theorem keepByTiers_subset (h : harsh.Harsher mild) {r : HeldPayload}
    (hr : r ∈ (keepByTiers (newestFirstBySource rows) policy harsh).members) :
    r ∈ (keepByTiers (newestFirstBySource rows) policy mild).members :=
  Iff.mpr mem_keepByTiers (keepOfSource_subset h (pairwise_newestOf _) (Iff.mp mem_keepByTiers hr))

/-- A row whose verdict is to be kept, wherever it stands, is kept under any rules. -/
theorem mem_keepByTiers_of_keep {r : HeldPayload} (hr : r ∈ rows)
    (hkeep : r.isProtected = true ∨ r.tier ≠ .reference ∧ policy.inHot r = true) :
    r ∈ (keepByTiers (newestFirstBySource rows) policy rules).members := by
  obtain ⟨i, hi⟩ := List.mem_iff_getElem?.mp (Iff.mpr mem_newestOf ⟨hr, rfl⟩)
  exact Iff.mpr mem_keepByTiers (mem_keepOfSource hi
    (Iff.mpr verdict_eq_keep_iff (hkeep.imp Or.inr id)))

/-- The newest of each source are kept under any rules. -/
theorem mem_keepByTiers_of_newest {r : HeldPayload} (h : IsNewest rows r) :
    r ∈ (keepByTiers (newestFirstBySource rows) policy rules).members := by
  obtain ⟨i, hi⟩ := List.mem_iff_getElem?.mp h
  rw [List.getElem?_take] at hi
  split_ifs at hi with hlt
  exact Iff.mpr mem_keepByTiers
    (mem_keepOfSource hi (Iff.mpr verdict_eq_keep_iff (Or.inl (Or.inl hlt))))

/-- What the tiers keep of a hot window, they keep under any rules. -/
theorem mem_keepByTiers_of_inHot {r : HeldPayload} (hhot : policy.inHot r = true)
    (hr : r ∈ (keepByTiers (newestFirstBySource rows) policy mild).members) :
    r ∈ (keepByTiers (newestFirstBySource rows) policy harsh).members := by
  obtain ⟨⟨x, i⟩, hitem, rfl⟩ := List.mem_map.mp (Iff.mp mem_keepByTiers hr)
  have hplace : (newestOf rows x.sourceId)[i]? = some x :=
    List.mem_zipIdx_iff_getElem?.mp (Thinning.keepFirst_sublist.subset hitem)
  have hkeep : verdict policy mild (x, i) = .keep := by
    cases h : verdict policy mild (x, i) with
    | keep => rfl
    | drop => exact absurd h (Thinning.verdict_ne_drop hitem)
    | thin =>
      rw [(Iff.mp verdict_eq_thin_iff h).2.2.1] at hhot
      cases hhot
  exact Iff.mpr mem_keepByTiers (mem_keepOfSource hplace
    (Iff.mpr verdict_eq_keep_iff (Iff.mp verdict_eq_keep_iff hkeep)))

end Sources

end OpenConditions.Pipeline

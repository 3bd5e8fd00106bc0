import Mathlib
import OpenConditions.Lib.Instant
import OpenConditions.Lib.OrderedMap

set_option relaxedAutoImplicit false
set_option autoImplicit false

/-!
# The cache of latest rows

What a process remembers of the latest rows its polls have left, per source
(`packages/storage/src/latest-cache.ts`).  A write stages what it learns; the source is held as its
last committed poll left it, when that fits the budget the other sources leave.

`H` is the type of the digests.

## Main definitions

* `LatestEntry` — what a series' latest row held.
* `LatestCache`, `LatestCacheWrite` — the cache, and a write's view of a source.
* `LatestCache.begin`, `commit`, `discard` — the life of a write.

## Main results

* `LatestCache.All` and its lemmas — what holds of every staged entry holds of every cached one.
-/

namespace OpenConditions.Storage

/-- One subject, property, qualifier set and source. -/
structure SeriesKey where
  subjectKey : String
  property : String
  qualifierKey : String
  sourceId : String
  deriving DecidableEq, Repr

/-- What a series' latest row held when a committed write of this process last wrote or read it. -/
structure LatestEntry (H : Type) where
  seriesId : ℕ
  /-- The content hash of the reading in effect. -/
  contentHash : H
  /-- For a polled change-only series, a digest of what a reading restating the one in effect
  matches. -/
  restates : Option H
  effectiveFrom : Instant
  expiresAt : Option Instant
  /-- It states a `validUntil`. -/
  ended : Bool
  deriving DecidableEq

/-- A cached source: its series' entries, and when a poll of it last committed. -/
structure CachedSource (H : Type) where
  entries : OrderedMap SeriesKey (LatestEntry H)
  at_ : ℤ

/-- The cached sources, and the refused ones with the series they needed. -/
structure LatestCache (H : Type) where
  sources : OrderedMap String (CachedSource H)
  refused : OrderedMap String ℕ
  budget : ℕ

/-- One write's use of the cache, for one source. -/
structure LatestCacheWrite (H : Type) where
  sourceId : String
  /-- The source is not held, and nothing of this write is kept. -/
  uncached : Bool
  held : OrderedMap SeriesKey (LatestEntry H)
  staged : OrderedMap SeriesKey (Option (LatestEntry H))
  seen : List SeriesKey

/-- A source no poll has committed for this many milliseconds is released. -/
def latestCacheIdleMs : ℤ := 2 * 3600000

section Cache

variable {H : Type}

namespace LatestCacheWrite

/-- The entry committed writes left for a series. -/
def get (write : LatestCacheWrite H) (key : SeriesKey) : Option (LatestEntry H) :=
  if write.uncached then none else write.held.get key

/-- The series' row as this write leaves it. -/
def set (write : LatestCacheWrite H) (key : SeriesKey) (entry : LatestEntry H) :
    LatestCacheWrite H :=
  if write.uncached then write else { write with staged := write.staged.set key (some entry) }

/-- This write leaves the series' row in a state the cache does not hold. -/
def delete (write : LatestCacheWrite H) (key : SeriesKey) : LatestCacheWrite H :=
  if write.uncached then write else { write with staged := write.staged.set key none }

/-- This write found the series' row as its entry says. -/
def see (write : LatestCacheWrite H) (key : SeriesKey) : LatestCacheWrite H :=
  if write.uncached then write else { write with seen := write.seen ++ [key] }

end LatestCacheWrite

namespace LatestCache

/-- The entries the budget leaves a source beside the other sources held. -/
def free (cache : LatestCache H) (sourceId : String) : ℕ :=
  cache.budget -
    ((cache.sources.entries.filter fun s => decide (s.1 ≠ sourceId)).map fun s =>
      s.2.entries.size).sum

/-- A write's view of a source, once the idle sources are released. -/
def begin (cache : LatestCache H) (sourceId : String) (now : ℤ) :
    LatestCache H × LatestCacheWrite H :=
  let sources := cache.sources.filter fun s => !decide (latestCacheIdleMs ≤ now - s.2.at_)
  let cache := { cache with sources := sources }
  let held := ((sources.get sourceId).map CachedSource.entries).getD .empty
  let uncached := (cache.refused.get sourceId).any fun needed =>
    decide (cache.free sourceId < needed)
  (cache, ⟨sourceId, uncached, held, .empty, []⟩)

/-- The entries a source is left with: those seen and not staged, and those staged. -/
def entriesOf (write : LatestCacheWrite H) : OrderedMap SeriesKey (LatestEntry H) :=
  let seen := write.seen.foldl (fun entries key =>
    match write.held.get key with
    | some entry => if write.staged.has key then entries else entries.set key entry
    | none => entries) .empty
  write.staged.entries.foldl (fun entries s =>
    match s.2 with
    | some entry => entries.set s.1 entry
    | none => entries) seen

/-- The write's transaction committed. -/
def commit (cache : LatestCache H) (write : LatestCacheWrite H) (now : ℤ) : LatestCache H :=
  if write.uncached then cache
  else
    let entries := entriesOf write
    let sources := cache.sources.delete write.sourceId
    let free := { cache with sources := sources }.free write.sourceId
    if free < entries.size then
      { cache with
        sources := sources
        refused := cache.refused.set write.sourceId entries.size }
    else
      { cache with
        sources := if 0 < entries.size then sources.set write.sourceId ⟨entries, now⟩ else sources
        refused := cache.refused.delete write.sourceId }

/-- The write's transaction rolled back: what it wrote is forgotten. -/
def discard (cache : LatestCache H) (write : LatestCacheWrite H) : LatestCache H :=
  if write.uncached then cache
  else
    { cache with
      sources := cache.sources.mapValues fun sourceId source =>
        if sourceId = write.sourceId then
          { source with entries := source.entries.filter fun e => !write.staged.has e.1 }
        else source }

end LatestCache

/-! ## What the entries say -/

variable {P : SeriesKey → LatestEntry H → Prop}

/-- Every entry of a map has a property. -/
def AllEntries (P : SeriesKey → LatestEntry H → Prop)
    (entries : OrderedMap SeriesKey (LatestEntry H)) : Prop :=
  ∀ key entry, entries.get key = some entry → P key entry

/-- Every entry of the cache has a property. -/
def LatestCache.All (P : SeriesKey → LatestEntry H → Prop) (cache : LatestCache H) : Prop :=
  ∀ sourceId source, cache.sources.get sourceId = some source → AllEntries P source.entries

/-- Every entry a write has, of before or staged, has a property. -/
structure LatestCacheWrite.All (P : SeriesKey → LatestEntry H → Prop)
    (write : LatestCacheWrite H) : Prop where
  held : AllEntries P write.held
  staged : ∀ key entry, write.staged.get key = some (some entry) → P key entry

/-- No entry, no exception. -/
theorem AllEntries.empty : AllEntries P .empty := fun _ _ h => nomatch h

/-- Setting an entry that has the property. -/
theorem AllEntries.set {entries : OrderedMap SeriesKey (LatestEntry H)} (h : AllEntries P entries)
    {key : SeriesKey} {entry : LatestEntry H} (he : P key entry) :
    AllEntries P (entries.set key entry) := by
  intro k e hget
  rw [OrderedMap.get_set] at hget
  by_cases hk : k = key
  · rw [if_pos hk, Option.some_inj] at hget
    rw [hk, ← hget]
    exact he
  · rw [if_neg hk] at hget
    exact h k e hget

/-- Keeping some of the entries. -/
theorem AllEntries.filter {entries : OrderedMap SeriesKey (LatestEntry H)}
    (h : AllEntries P entries) (p : SeriesKey × LatestEntry H → Bool) :
    AllEntries P (entries.filter p) := by
  intro k e hget
  rw [OrderedMap.get_filter, Option.filter_eq_some_iff] at hget
  exact h k e hget.1

/-- What holds of an entry of a view holds of the entry that is looked up. -/
theorem LatestCacheWrite.All.get {write : LatestCacheWrite H} (h : write.All P) {key : SeriesKey}
    {entry : LatestEntry H} (hget : write.get key = some entry) : P key entry := by
  unfold LatestCacheWrite.get at hget
  cases huncached : write.uncached with
  | true => simp [huncached] at hget
  | false =>
    rw [huncached] at hget
    exact h.held key entry hget

/-- Staging an entry. -/
theorem LatestCacheWrite.All.set {write : LatestCacheWrite H} (h : write.All P) {key : SeriesKey}
    {entry : LatestEntry H} (he : P key entry) : (write.set key entry).All P := by
  unfold LatestCacheWrite.set
  cases write.uncached with
  | true => exact h
  | false =>
    refine ⟨h.held, fun k e hget => ?_⟩
    simp only [Bool.false_eq_true, if_false, OrderedMap.get_set] at hget
    by_cases hk : k = key
    · rw [if_pos hk, Option.some_inj, Option.some_inj] at hget
      rw [hk, ← hget]
      exact he
    · rw [if_neg hk] at hget
      exact h.staged k e hget

/-- Staging that a series is not held. -/
theorem LatestCacheWrite.All.delete {write : LatestCacheWrite H} (h : write.All P)
    (key : SeriesKey) : (write.delete key).All P := by
  unfold LatestCacheWrite.delete
  cases write.uncached with
  | true => exact h
  | false =>
    refine ⟨h.held, fun k e hget => ?_⟩
    simp only [Bool.false_eq_true, if_false, OrderedMap.get_set] at hget
    by_cases hk : k = key
    · simp [hk] at hget
    · rw [if_neg hk] at hget
      exact h.staged k e hget

/-- Seeing a series. -/
theorem LatestCacheWrite.All.see {write : LatestCacheWrite H} (h : write.All P)
    (key : SeriesKey) : (write.see key).All P := by
  unfold LatestCacheWrite.see
  cases write.uncached with
  | true => exact h
  | false => exact ⟨h.held, h.staged⟩

/-- What a write starts from is what is cached. -/
theorem LatestCache.All.begin {cache : LatestCache H} (h : cache.All P) (sourceId : String)
    (now : ℤ) : (cache.begin sourceId now).1.All P ∧ (cache.begin sourceId now).2.All P := by
  have hkept : (cache.begin sourceId now).1.All P := by
    intro id source hget
    simp only [LatestCache.begin, OrderedMap.get_filter, Option.filter_eq_some_iff] at hget
    exact h id source hget.1
  refine ⟨hkept, fun key entry hget => ?_, fun key entry hget => by cases hget⟩
  simp only [LatestCache.begin] at hget
  cases hsource : (cache.begin sourceId now).1.sources.get sourceId with
  | none =>
    simp only [LatestCache.begin] at hsource
    simp [hsource] at hget
  | some source =>
    have hall := hkept sourceId source hsource
    simp only [LatestCache.begin] at hsource
    rw [hsource, Option.map_some, Option.getD_some] at hget
    exact hall key entry hget

/-- The entries a write leaves are ones it has. -/
theorem LatestCacheWrite.All.entriesOf {write : LatestCacheWrite H} (h : write.All P) :
    AllEntries P (LatestCache.entriesOf write) := by
  have hseen : ∀ (keys : List SeriesKey) (entries : OrderedMap SeriesKey (LatestEntry H)),
      AllEntries P entries → AllEntries P (keys.foldl (fun entries key =>
        match write.held.get key with
        | some entry => if write.staged.has key then entries else entries.set key entry
        | none => entries) entries) := by
    intro keys
    induction keys with
    | nil => exact fun entries hentries => hentries
    | cons key keys ih =>
      intro entries hentries
      rw [List.foldl_cons]
      refine ih _ ?_
      cases hget : write.held.get key with
      | none => exact hentries
      | some entry =>
        by_cases hstaged : write.staged.has key = true
        · simp only [hstaged, if_true]
          exact hentries
        · simp only [hstaged]
          exact hentries.set (h.held key entry hget)
  have hstaged : ∀ (staged : List (SeriesKey × Option (LatestEntry H))),
      (∀ s ∈ staged, ∀ entry, s.2 = some entry → P s.1 entry) →
      ∀ entries : OrderedMap SeriesKey (LatestEntry H), AllEntries P entries →
        AllEntries P (staged.foldl (fun entries s =>
          match s.2 with
          | some entry => entries.set s.1 entry
          | none => entries) entries) := by
    intro staged
    induction staged with
    | nil => exact fun _ entries hentries => hentries
    | cons s staged ih =>
      intro hall entries hentries
      rw [List.foldl_cons]
      refine ih (fun s' hs' => hall s' (List.mem_cons_of_mem _ hs')) _ ?_
      cases hs : s.2 with
      | none => exact hentries
      | some entry => exact hentries.set (hall s (List.mem_cons_self ..) entry hs)
  refine hstaged _ (fun s hs entry hentry => ?_) _ (hseen _ _ .empty)
  refine h.staged s.1 entry (write.staged.get_eq_some_iff.mpr ?_)
  rw [← hentry]
  exact hs

/-- What is cached after a commit is what was cached or staged. -/
theorem LatestCache.All.commit {cache : LatestCache H} {write : LatestCacheWrite H}
    (h : cache.All P) (hwrite : write.All P) (now : ℤ) : (cache.commit write now).All P := by
  unfold LatestCache.commit
  have hdeleted : ∀ id source,
      (cache.sources.delete write.sourceId).get id = some source → AllEntries P source.entries := by
    intro id source hget
    rw [OrderedMap.get_delete] at hget
    by_cases hid : id = write.sourceId
    · simp [hid] at hget
    · rw [if_neg hid] at hget
      exact h id source hget
  cases write.uncached with
  | true => exact h
  | false =>
    simp only [Bool.false_eq_true, if_false]
    split
    · exact hdeleted
    · intro id source hget
      simp only at hget
      split at hget
      · rw [OrderedMap.get_set] at hget
        by_cases hid : id = write.sourceId
        · rw [if_pos hid, Option.some_inj] at hget
          rw [← hget]
          exact hwrite.entriesOf
        · rw [if_neg hid] at hget
          exact hdeleted id source hget
      · exact hdeleted id source hget

/-- What is cached after a roll-back was cached before. -/
theorem LatestCache.All.discard {cache : LatestCache H} (h : cache.All P)
    (write : LatestCacheWrite H) : (cache.discard write).All P := by
  unfold LatestCache.discard
  cases write.uncached with
  | true => exact h
  | false =>
    intro id source hget
    simp only [Bool.false_eq_true, if_false, OrderedMap.get_mapValues,
      Option.map_eq_some_iff] at hget
    obtain ⟨old, hold, rfl⟩ := hget
    by_cases hid : id = write.sourceId
    · rw [if_pos hid]
      exact (h id old hold).filter _
    · rw [if_neg hid]
      exact h id old hold

end Cache

end OpenConditions.Storage

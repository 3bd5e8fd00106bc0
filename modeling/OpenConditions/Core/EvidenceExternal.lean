import Mathlib.Tactic.Linarith
import OpenConditions.Core.EvidenceLedger

set_option relaxedAutoImplicit false
set_option autoImplicit false

/-!
# External resolutions and routing

The last external entry of a ledger decides the report: the crowd's entries are weighed only where
there is none.  A report is eligible for routing exactly while the last external entry confirms it
and has not run out, so no entry of the crowd makes or ends its eligibility.

## Main definitions

* `IsFirstReport`, `IsLastExternal` — the two entries that decide, told by their places among the
  admissible ones.

## Main results

* `tally_lastExternal_eq_some` — the pass finds the last external entry.
* `evaluateEvidence_external` — what an evaluation makes of it.
* `routingEligible_iff` — when a report is eligible, and that the crowd has no say in it.
-/

namespace OpenConditions.Core

/-! ## The last external entry -/

/-- An external entry, with its resolution. -/
def externalOf (item : SortedEntry) : Option (SortedEntry × ExternalResolution) :=
  if item.entry.kind = .external then item.entry.external.map fun external => (item, external)
  else none

/-- An external entry is found with its resolution. -/
theorem externalOf_eq_some {item found : SortedEntry} {external : ExternalResolution} :
    externalOf item = some (found, external) ↔
      item = found ∧ item.entry.kind = .external ∧ item.entry.external = some external := by
  unfold externalOf
  by_cases hkind : item.entry.kind = .external
  · rw [if_pos hkind, Option.map_eq_some_iff]
    constructor
    · rintro ⟨e, he, heq⟩
      obtain ⟨rfl, rfl⟩ := Prod.mk.inj heq
      exact ⟨rfl, hkind, he⟩
    · rintro ⟨rfl, -, he⟩
      exact ⟨external, he, rfl⟩
  · rw [if_neg hkind]
    exact ⟨fun h => (by cases h), fun h => absurd h.2.1 hkind⟩

/-- The first report of a ledger: the others stand after it. -/
structure IsFirstReport (input : EvidenceLedger) (item : SortedEntry) : Prop where
  mem : item ∈ admissibleEntries input
  kind : item.entry.kind = .report
  first : ∀ other ∈ admissibleEntries input, other.entry.kind = .report → item.before other

/-- The last external entry of a ledger, with its resolution: the others stand before it. -/
structure IsLastExternal (input : EvidenceLedger) (item : SortedEntry)
    (external : ExternalResolution) : Prop where
  mem : item ∈ admissibleEntries input
  resolution : externalOf item = some (item, external)
  last : ∀ other ∈ admissibleEntries input, (externalOf other).isSome = true → other.before item

section Tally

variable {originatingKey : Option String} {items : List SortedEntry} {t : Tally}

/-- One entry becomes the last external one, when it is external. -/
theorem Tally.step_lastExternal (item : SortedEntry) :
    (t.step originatingKey item).lastExternal = (externalOf item).or t.lastExternal := by
  unfold Tally.step externalOf
  cases hkind : item.entry.kind with
  | report => rfl
  | confirm => rfl
  | external => cases item.entry.external <;> rfl
  | cancel =>
    cases item.entry.reporterKey with
    | none => rfl
    | some key => by_cases h : originatingKey = some key <;> simp [h]
  | negate =>
    cases item.entry.reporterKey with
    | none => rfl
    | some key => by_cases h : originatingKey = some key <;> simp [h]

/-- A pass keeps the last of the external entries it has seen. -/
theorem foldl_lastExternal : (items.foldl (Tally.step originatingKey) t).lastExternal =
    (items.filterMap externalOf).getLast?.or t.lastExternal := by
  induction items generalizing t with
  | nil => rfl
  | cons item items ih =>
    rw [List.foldl_cons, ih, Tally.step_lastExternal, List.filterMap_cons]
    cases hitem : externalOf item with
    | none => rfl
    | some external =>
      rw [List.getLast?_cons]
      cases (items.filterMap externalOf).getLast? <;> rfl

end Tally

section Ledger

variable {input : EvidenceLedger} {policy : EvidencePolicy} {r : EvidencePolicyResult}
  {first item : SortedEntry} {external : ExternalResolution}

/-- The pass keeps the last external entry of the admissible ones. -/
theorem tally_lastExternal (first : SortedEntry) :
    (tally first (admissibleEntries input)).lastExternal =
      ((admissibleEntries input).filterMap externalOf).getLast? := by
  rw [tally, foldl_lastExternal]
  exact Option.or_none

/-- The external entries are in the order of the admissible ones. -/
theorem externals_pairwise (input : EvidenceLedger) :
    ((admissibleEntries input).filterMap externalOf).Pairwise fun a b => a.1.before b.1 := by
  refine List.Pairwise.filterMap externalOf ?_ (admissibleEntries_pairwise input)
  rintro a b hab ⟨x, ex⟩ hx ⟨y, ey⟩ hy
  obtain ⟨rfl, -⟩ := Iff.mp externalOf_eq_some hx
  obtain ⟨rfl, -⟩ := Iff.mp externalOf_eq_some hy
  exact hab

/-- The last of a sorted list stands after all its members. -/
theorem before_of_getLast? {l : List (SortedEntry × ExternalResolution)}
    {x : SortedEntry × ExternalResolution} (hl : l.Pairwise fun a b => a.1.before b.1)
    (hx : l.getLast? = some x) {y : SortedEntry × ExternalResolution} (hy : y ∈ l) :
    y.1.before x.1 := by
  obtain ⟨front, rfl⟩ := List.getLast?_eq_some_iff.mp hx
  rw [List.mem_append, List.mem_singleton] at hy
  rcases hy with hfront | rfl
  · exact (List.pairwise_append.mp hl).2.2 y hfront x (List.mem_singleton_self x)
  · exact SortedEntry.before_iff.mpr (le_refl _)

/-- **The pass finds the last external entry.** -/
theorem tally_lastExternal_eq_some
    (hids : ((admissibleEntries input).map fun item => item.entry.id).Nodup) :
    (tally first (admissibleEntries input)).lastExternal = some (item, external) ↔
      IsLastExternal input item external := by
  rw [tally_lastExternal]
  have hmem {x : SortedEntry} {ex : ExternalResolution} :
      (x, ex) ∈ (admissibleEntries input).filterMap externalOf ↔
        x ∈ admissibleEntries input ∧ externalOf x = some (x, ex) := by
    rw [List.mem_filterMap]
    constructor
    · rintro ⟨a, ha, hax⟩
      obtain ⟨rfl, -⟩ := Iff.mp externalOf_eq_some hax
      exact ⟨ha, hax⟩
    · rintro ⟨hx, hax⟩
      exact ⟨x, hx, hax⟩
  constructor
  · intro h
    obtain ⟨hitem, hresolution⟩ := hmem.mp (List.mem_of_getLast? h)
    refine ⟨hitem, hresolution, fun other hother hsome => ?_⟩
    obtain ⟨⟨y, ey⟩, hy⟩ := Option.isSome_iff_exists.mp hsome
    obtain ⟨rfl, -⟩ := Iff.mp externalOf_eq_some hy
    exact before_of_getLast? (externals_pairwise input) h (hmem.mpr ⟨hother, hy⟩)
  · intro h
    have hin := hmem.mpr ⟨h.mem, h.resolution⟩
    obtain ⟨⟨y, ey⟩, hlast⟩ : ∃ y,
        ((admissibleEntries input).filterMap externalOf).getLast? = some y :=
      Option.isSome_iff_exists.mp
        (List.getLast?_isSome.mpr (List.ne_nil_of_mem hin))
    obtain ⟨hy, hresolution⟩ := hmem.mp (List.mem_of_getLast? hlast)
    have hbefore := before_of_getLast? (externals_pairwise input) hlast hin
    have hafter := h.last y hy (by rw [hresolution]; rfl)
    have hid := (SortedEntry.before_antisymm hbefore hafter).2
    have heq : item = y := List.inj_on_of_nodup_map hids h.mem hy hid
    subst heq
    rw [hlast]
    exact hresolution.symm.trans h.resolution

/-- Where there is an external entry, there is a last one. -/
theorem exists_isLastExternal
    (hids : ((admissibleEntries input).map fun item => item.entry.id).Nodup)
    (hmem : item ∈ admissibleEntries input) (hsome : (externalOf item).isSome = true) :
    ∃ last external, IsLastExternal input last external := by
  obtain ⟨found, hfound⟩ := Option.isSome_iff_exists.mp hsome
  have hne := List.ne_nil_of_mem (List.mem_filterMap.mpr ⟨item, hmem, hfound⟩)
  obtain ⟨⟨last, external⟩, hlast⟩ := Option.isSome_iff_exists.mp (List.getLast?_isSome.mpr hne)
  have htally : (tally item (admissibleEntries input)).lastExternal = some (last, external) :=
    (tally_lastExternal item).trans hlast
  exact ⟨last, external, (tally_lastExternal_eq_some hids).mp htally⟩

/-- The evaluation starts from the first report. -/
theorem isFirstReport_of_find?
    (h : (admissibleEntries input).find? (fun item => item.entry.kind = .report) = some first) :
    IsFirstReport input first := by
  obtain ⟨hkind, front, rest, hsplit, hfront⟩ := List.find?_eq_some_iff_append.mp h
  refine ⟨List.mem_of_find?_eq_some h, of_decide_eq_true hkind, fun other hother hreport => ?_⟩
  have hsorted := admissibleEntries_pairwise input
  rw [hsplit] at hother hsorted
  rw [List.mem_append, List.mem_cons] at hother
  rcases hother with hbefore | rfl | hafter
  · exact absurd (hfront other hbefore) (by simp [hreport])
  · exact SortedEntry.before_iff.mpr (le_refl _)
  · exact (List.pairwise_cons.mp (List.pairwise_append.mp hsorted).2.1).1 other hafter

/-- Of two entries that both stand first, one is the other. -/
theorem IsFirstReport.unique
    (hids : ((admissibleEntries input).map fun item => item.entry.id).Nodup)
    (h : IsFirstReport input first) (h' : IsFirstReport input item) : first = item :=
  List.inj_on_of_nodup_map hids h.mem h'.mem
    (SortedEntry.before_antisymm (h.first _ h'.mem h'.kind) (h'.first _ h.mem h.kind)).2

/-! ## What an evaluation makes of it -/

/-- **The external verdict.** With an external entry, an evaluation gives what the last one says:
its rejection negates the report, and its confirmation resolves it until it runs out. -/
theorem evaluateEvidence_external (h : evaluateEvidence input policy = .ok r)
    (hexternal : IsLastExternal input item external) :
    (external.outcome = .rejected ∧ r.state = .negated ∧ r.expiresAt = item.atMs.ms) ∨
      (external.outcome = .confirmed ∧ ∃ first, IsFirstReport input first ∧
        r.state = overlayExpired input.now .externallyResolved
          (((msOf item.atMs).add (policy.ttlSec.mul (.fin 1000))).min
            (maxLifetimeEndMs policy first)) ∧
        isoInstant (((msOf item.atMs).add (policy.ttlSec.mul (.fin 1000))).min
          (maxLifetimeEndMs policy first)) = .ok r.expiresAt) := by
  obtain ⟨-, hids, first, hfirst, _, _, _, _, rfl, rfl, rfl, rfl, hiso, hstate, -⟩ :=
    evaluateEvidence_eq_ok.mp h
  have hlast : (tally first (admissibleEntries input)).lastExternal = some (item, external) :=
    (tally_lastExternal_eq_some hids).mpr hexternal
  simp only [judge, hlast] at hiso hstate
  cases houtcome : external.outcome with
  | confirmed =>
    simp only [houtcome] at hiso hstate
    exact Or.inr ⟨rfl, first, isFirstReport_of_find? hfirst, hstate, hiso⟩
  | rejected =>
    simp only [houtcome] at hiso hstate
    refine Or.inl ⟨rfl, ?_, ?_⟩
    · rw [hstate, overlayExpired, if_neg]
      exact fun hne => hne.1 rfl
    · rw [isoInstant_msOf, Except.ok.injEq] at hiso
      exact hiso.symm

/-- A crowd verdict is none of an external entry. -/
theorem judge_of_lastExternal_eq_none {confirmers : ℕ} {t : Tally} (h : t.lastExternal = none) :
    (judge policy first confirmers t).1 ≠ .externallyResolved := by
  unfold judge
  rw [h]
  dsimp only
  cases t.retraction with
  | some item => simp
  | none =>
    dsimp only
    split
    · simp
    · split_ifs <;> simp

/-- A confirmation that resolves a report has not run out. -/
theorem overlayExpired_externallyResolved {now : Instant} {expiresAtMs : ExtRat} :
    overlayExpired (some now) .externallyResolved expiresAtMs = .externallyResolved ↔
      expiresAtMs.le (msOf now) = false := by
  unfold overlayExpired
  by_cases h : expiresAtMs.le (msOf now) = true
  · simp [h]
  · simp [h]

/-- **One evaluation.** A report is eligible for routing exactly while the last external entry
confirms it and neither its lifetime nor the report's has run out. -/
theorem routingEligible_of_ok {ttl life : ℚ} (h : evaluateEvidence input policy = .ok r)
    (httl : policy.ttlSec = .fin ttl) (hlife : policy.maxLifetimeSec = .fin life) :
    r.routingEligible = true ↔
      ∃ now first item source, input.now = some now ∧ IsFirstReport input first ∧
        IsLastExternal input item ⟨source, .confirmed⟩ ∧
        (now.ms : ℚ) < min (item.atMs.ms + ttl * 1000) (first.atMs.ms + life * 1000) := by
  obtain ⟨-, hids, first, hfirst, _, _, _, _, rfl, rfl, rfl, rfl, -, hstate, -, hrouting⟩ :=
    evaluateEvidence_eq_ok.mp h
  have hreport := isFirstReport_of_find? hfirst
  obtain ⟨now, hnow, -⟩ := (mem_admissibleEntries hreport.mem).2.2
  rw [hrouting, decide_eq_true_iff]
  cases hlast : (tally first (admissibleEntries input)).lastExternal with
  | none =>
    constructor
    · intro hresolved
      rw [hnow] at hresolved
      exact absurd (overlayExpired_eq hresolved (by decide)).1
        (judge_of_lastExternal_eq_none hlast)
    · rintro ⟨-, -, item, source, -, -, hexternal, -⟩
      rw [(tally_lastExternal_eq_some hids).mpr hexternal] at hlast
      cases hlast
  | some found =>
    obtain ⟨item, external⟩ := found
    have hexternal := (tally_lastExternal_eq_some hids).mp hlast
    obtain ⟨source, outcome⟩ := external
    cases outcome with
    | rejected =>
      constructor
      · intro hresolved
        simp [judge, hlast, overlayExpired] at hresolved
      · rintro ⟨-, -, item', source', -, -, hexternal', -⟩
        rw [(tally_lastExternal_eq_some hids).mpr hexternal'] at hlast
        cases hlast
    | confirmed =>
      have hexpiry : ((msOf item.atMs).add (policy.ttlSec.mul (.fin 1000))).min
          (maxLifetimeEndMs policy first) =
            .fin (min (item.atMs.ms + ttl * 1000) (first.atMs.ms + life * 1000)) := by
        simp only [maxLifetimeEndMs, msOf, httl, hlife, ExtRat.mul_fin, ExtRat.add_fin,
          ExtRat.min_fin]
      simp only [judge, hlast, hexpiry, hnow, overlayExpired_externallyResolved]
      rw [msOf, ExtRat.le_fin, decide_eq_false_iff_not, not_le]
      constructor
      · exact fun hlt => ⟨now, first, item, source, rfl, hreport, hexternal, hlt⟩
      · rintro ⟨now', first', item', source', hnow', hreport', hexternal', hlt⟩
        cases hnow'
        obtain rfl := hreport.unique hids hreport'
        rw [(tally_lastExternal_eq_some hids).mpr hexternal'] at hlast
        cases hlast
        exact hlt

/-! ## What the crowd adds -/

/-- An entry the crowd adds to a report. -/
def IsCrowdVote (entry : EvidenceEntry) : Prop :=
  entry.kind = .confirm ∨ entry.kind = .negate ∨ entry.kind = .cancel

/-- The reports and external entries of a ledger are those of the ledger without the votes. -/
theorem mem_admissibleEntries_votes {added entries' : List EvidenceEntry}
    (hadded : ∀ e ∈ added, IsCrowdVote e) (hperm : entries'.Perm (input.entries ++ added))
    (hitem : ¬IsCrowdVote item.entry) :
    item ∈ admissibleEntries { input with entries := entries' } ↔
      item ∈ admissibleEntries input := by
  rw [(admissibleEntries_perm _).mem_iff, (admissibleEntries_perm _).mem_iff,
    List.mem_filterMap, List.mem_filterMap]
  constructor
  · rintro ⟨entry, hentry, hadmitted⟩
    refine ⟨entry, ?_, hadmitted⟩
    rcases List.mem_append.mp (hperm.mem_iff.mp hentry) with hold | hnew
    · exact hold
    · rw [(admitted_eq_some.mp hadmitted).1] at hitem
      exact absurd (hadded entry hnew) hitem
  · rintro ⟨entry, hentry, hadmitted⟩
    exact ⟨entry, hperm.mem_iff.mpr (List.mem_append_left _ hentry), hadmitted⟩

/-- Votes leave the first report. -/
theorem isFirstReport_votes {added entries' : List EvidenceEntry}
    (hadded : ∀ e ∈ added, IsCrowdVote e) (hperm : entries'.Perm (input.entries ++ added)) :
    IsFirstReport { input with entries := entries' } item ↔ IsFirstReport input item := by
  have hmem {x : SortedEntry} (hx : x.entry.kind = .report) :
      x ∈ admissibleEntries { input with entries := entries' } ↔ x ∈ admissibleEntries input :=
    mem_admissibleEntries_votes hadded hperm (by simp [IsCrowdVote, hx])
  constructor
  · rintro ⟨h₁, h₂, h₃⟩
    exact ⟨(hmem h₂).mp h₁, h₂, fun x hx hkind => h₃ x ((hmem hkind).mpr hx) hkind⟩
  · rintro ⟨h₁, h₂, h₃⟩
    exact ⟨(hmem h₂).mpr h₁, h₂, fun x hx hkind => h₃ x ((hmem hkind).mp hx) hkind⟩

/-- Votes leave the last external entry. -/
theorem isLastExternal_votes {added entries' : List EvidenceEntry}
    (hadded : ∀ e ∈ added, IsCrowdVote e) (hperm : entries'.Perm (input.entries ++ added)) :
    IsLastExternal { input with entries := entries' } item external ↔
      IsLastExternal input item external := by
  have hmem {x : SortedEntry} (hx : (externalOf x).isSome = true) :
      x ∈ admissibleEntries { input with entries := entries' } ↔ x ∈ admissibleEntries input := by
    obtain ⟨⟨y, ey⟩, hy⟩ := Option.isSome_iff_exists.mp hx
    obtain ⟨-, hkind, -⟩ := Iff.mp externalOf_eq_some hy
    exact mem_admissibleEntries_votes hadded hperm (by simp [IsCrowdVote, hkind])
  have hself : externalOf item = some (item, external) → (externalOf item).isSome = true := by
    intro h
    rw [h]
    rfl
  constructor
  · rintro ⟨h₁, h₂, h₃⟩
    exact ⟨(hmem (hself h₂)).mp h₁, h₂, fun x hx hsome => h₃ x ((hmem hsome).mpr hx) hsome⟩
  · rintro ⟨h₁, h₂, h₃⟩
    exact ⟨(hmem (hself h₂)).mpr h₁, h₂, fun x hx hsome => h₃ x ((hmem hsome).mp hx) hsome⟩

end Ledger

/-! ## A confirmed report -/

/-- An official confirmation at an instant. -/
def officialEntry (id : String) (outcome : ExternalOutcome) (atMs : Instant) : EvidenceEntry :=
  ⟨id, some atMs, .external, none, some ⟨.official, outcome⟩⟩

/-- A report that was confirmed ten minutes later, seen at twenty minutes. -/
def confirmedLedger : EvidenceLedger where
  entries := [sampleEntry "1" .report "a" .epoch, officialEntry "2" .confirmed ⟨600001, by decide⟩]
  now := some ⟨1200001, by decide⟩
  reporterLowerBound := none

end OpenConditions.Core

import OpenConditions.Core.Evidence
import Mathlib.Data.Prod.Lex

set_option relaxedAutoImplicit false
set_option autoImplicit false

/-!
# The admissible entries of a ledger

The sort of the entries puts them in the linear order of `(at, id)`, and the ids of an accepted
ledger are distinct, so its admissible entries are determined by the entries as a collection.  An
entry that is added takes its place among the others and moves none of them.

## Main results

* `admissibleEntries_insert` — the admissible entries with one entry added.
* `evaluateEvidence_eq_ok` — what an evaluation that returns has computed.
-/

namespace OpenConditions.Core

/-! ## The order of the entries -/

/-- What the entries are sorted by. -/
def SortedEntry.sortKey (a : SortedEntry) : Instant ×ₗ List ℕ :=
  toLex (a.atMs, Utf16.codeUnits a.entry.id)

/-- The comparator of the sort is the order of the sort keys. -/
theorem SortedEntry.before_iff {a b : SortedEntry} : a.before b ↔ a.sortKey ≤ b.sortKey := by
  simp only [before, sortKey, Prod.Lex.toLex_le_toLex]
  by_cases h : a.atMs = b.atMs
  · simp [h, Utf16.lt_eq_false_iff]
  · simp [h]

instance : Std.Total SortedEntry.before :=
  ⟨fun a b => by simpa only [SortedEntry.before_iff] using le_total a.sortKey b.sortKey⟩

instance : IsTrans SortedEntry SortedEntry.before :=
  ⟨fun a b c hab hbc => by
    rw [SortedEntry.before_iff] at hab hbc ⊢
    exact hab.trans hbc⟩

/-- Entries that stand before each other have the same instant and id. -/
theorem SortedEntry.before_antisymm {a b : SortedEntry} (hab : a.before b) (hba : b.before a) :
    a.atMs = b.atMs ∧ a.entry.id = b.entry.id := by
  rw [before_iff] at hab hba
  have h := le_antisymm hab hba
  simp only [sortKey, toLex_inj, Prod.mk.injEq] at h
  exact ⟨h.1, Utf16.codeUnits_injective h.2⟩

/-- An entry stands before another one only at the same instant or earlier. -/
theorem SortedEntry.before.atMs_le {a b : SortedEntry} (h : a.before b) : a.atMs ≤ b.atMs := by
  unfold before at h
  split_ifs at h with hne
  · exact h.le
  · exact (not_not.mp hne).le

/-- The admissible entries are sorted. -/
theorem admissibleEntries_pairwise (input : EvidenceLedger) :
    (admissibleEntries input).Pairwise SortedEntry.before :=
  List.pairwise_insertionSort _ _

/-- The admissible entries are those up to the evaluation instant. -/
theorem admissibleEntries_perm (input : EvidenceLedger) :
    (admissibleEntries input).Perm (input.entries.filterMap (admitted input.now)) :=
  List.perm_insertionSort _ _

/-- An entry is admitted with its own instant, once that has come. -/
theorem admitted_eq_some {now : Option Instant} {e : EvidenceEntry} {item : SortedEntry} :
    admitted now e = some item ↔
      item.entry = e ∧ e.atMs = some item.atMs ∧ ∃ nowMs, now = some nowMs ∧ item.atMs ≤ nowMs := by
  obtain ⟨entry, atMs⟩ := item
  unfold admitted
  cases e.atMs with
  | none => simp
  | some at' =>
    cases now with
    | none => simp
    | some nowMs =>
      by_cases hle : at' ≤ nowMs
      · simp only [if_pos hle, Option.some_inj, SortedEntry.mk.injEq, exists_eq_left']
        constructor
        · rintro ⟨rfl, rfl⟩
          exact ⟨rfl, rfl, hle⟩
        · rintro ⟨rfl, rfl, -⟩
          exact ⟨rfl, rfl⟩
      · simp only [if_neg hle, Option.some_inj, exists_eq_left', reduceCtorEq, false_iff]
        rintro ⟨-, rfl, hle'⟩
        exact hle hle'

/-- An admissible entry has its own instant, which has come. -/
theorem mem_admissibleEntries {input : EvidenceLedger} {item : SortedEntry}
    (h : item ∈ admissibleEntries input) :
    item.entry ∈ input.entries ∧ item.entry.atMs = some item.atMs ∧
      ∃ now, input.now = some now ∧ item.atMs ≤ now := by
  rw [(admissibleEntries_perm input).mem_iff, List.mem_filterMap] at h
  obtain ⟨entry, hmem, hadmitted⟩ := h
  obtain ⟨rfl, hat, hnow⟩ := Iff.mp admitted_eq_some hadmitted
  exact ⟨hmem, hat, hnow⟩

/-- The search for a duplicate finds none exactly when the ids are distinct and unseen. -/
theorem firstDuplicate_eq_none_iff {items : List SortedEntry} {seenIds : List String} :
    firstDuplicate seenIds items = none ↔
      (items.map fun item => item.entry.id).Nodup ∧ ∀ item ∈ items, item.entry.id ∉ seenIds := by
  induction items generalizing seenIds with
  | nil => simp [firstDuplicate]
  | cons item rest ih =>
    by_cases h : item.entry.id ∈ seenIds
    · simp [firstDuplicate, h]
    · simp only [firstDuplicate, if_neg h, ih, List.map_cons, List.nodup_cons, List.mem_map,
        List.mem_cons, not_or]
      constructor
      · rintro ⟨hnodup, hseen⟩
        refine ⟨⟨?_, hnodup⟩, ?_⟩
        · rintro ⟨x, hx, hid⟩
          exact (hseen x hx).1 hid
        · rintro x (rfl | hx)
          · exact h
          · exact (hseen x hx).2
      · rintro ⟨⟨hnot, hnodup⟩, hseen⟩
        exact ⟨hnodup, fun x hx => ⟨fun hid => hnot ⟨x, hx, hid⟩, hseen x (Or.inr hx)⟩⟩

/-! ## One entry more -/

section Insert

variable {input : EvidenceLedger} {entries' : List EvidenceEntry} {e : EvidenceEntry}
  {now at' : Instant}

/-- An admissible entry that is added takes its place among the others and moves none of them.

**Proof sketch.** It stands somewhere in the sorted list.  Without it that list is sorted too and
holds the same entries as before, and distinct entries have distinct sort keys. -/
theorem admissibleEntries_insert (hperm : entries'.Perm (e :: input.entries))
    (hnow : input.now = some now) (hat : e.atMs = some at') (hle : at' ≤ now)
    (hids : ((admissibleEntries input).map fun item => item.entry.id).Nodup) :
    ∃ before after, admissibleEntries input = before ++ after ∧
      admissibleEntries { input with entries := entries' } = before ++ ⟨e, at'⟩ :: after := by
  have hadmitted : admitted input.now e = some ⟨e, at'⟩ := by simp [admitted, hat, hnow, hle]
  have hperm' : (admissibleEntries { input with entries := entries' }).Perm
      (⟨e, at'⟩ :: admissibleEntries input) := by
    calc (admissibleEntries { input with entries := entries' }).Perm
          (entries'.filterMap (admitted input.now)) := admissibleEntries_perm _
      _ |>.Perm ((e :: input.entries).filterMap (admitted input.now)) := hperm.filterMap _
      _ |>.Perm (⟨e, at'⟩ :: input.entries.filterMap (admitted input.now)) := by
          rw [List.filterMap_cons, hadmitted]
      _ |>.Perm (⟨e, at'⟩ :: admissibleEntries input) :=
          (admissibleEntries_perm input).symm.cons _
  have hmem : (⟨e, at'⟩ : SortedEntry) ∈ admissibleEntries { input with entries := entries' } :=
    hperm'.mem_iff.mpr (List.mem_cons_self ..)
  obtain ⟨before, after, hsplit⟩ := List.append_of_mem hmem
  have hsorted := admissibleEntries_pairwise { input with entries := entries' }
  rw [hsplit] at hsorted hperm'
  have hsub : (before ++ after).Sublist (before ++ ⟨e, at'⟩ :: after) :=
    (List.Sublist.refl before).append (List.sublist_cons_self ..)
  have hrest : (before ++ after).Perm (admissibleEntries input) :=
    (List.perm_cons _).mp (List.perm_middle.symm.trans hperm')
  have hinj := List.inj_on_of_nodup_map hids
  refine ⟨before, after, ?_, hsplit⟩
  refine hrest.symm.eq_of_pairwise (fun a b ha hb hab hba => ?_)
    (admissibleEntries_pairwise input) (hsorted.sublist hsub)
  exact hinj ha (hrest.mem_iff.mp hb) (SortedEntry.before_antisymm hab hba).2

end Insert

/-! ## What an evaluation computes -/

/-- What the checks of a policy establish. -/
structure EvidencePolicy.Accepted (policy : EvidencePolicy) : Prop where
  cap_pos : 0 < policy.peerConfidenceCap.toRat
  cap_lt : policy.peerConfidenceCap.toRat < (policy.scoreByState .externallyResolved).toRat
  decay_pos : 0 < policy.confirmDecay.toRat
  decay_lt_one : policy.confirmDecay.toRat < 1
  asymmetry_nonneg : 0 ≤ policy.negateAsymmetry.toRat
  shrink_nonneg : 0 ≤ policy.negateShrinkFactor.toRat
  shrink_le_one : policy.negateShrinkFactor.toRat ≤ 1
  score_finite : ∀ state, (policy.scoreByState state).isFinite = true

/-- A finite policy that leaves no range is accepted. -/
theorem accepted_of_checkRanges {policy : EvidencePolicy} (h : checkRanges policy = none)
    (hcap : policy.peerConfidenceCap.isFinite = true)
    (hdecay : policy.confirmDecay.isFinite = true)
    (hasym : policy.negateAsymmetry.isFinite = true)
    (hshrink : policy.negateShrinkFactor.isFinite = true) : policy.Accepted := by
  unfold checkRanges at h
  split_ifs at h with h₁ h₂ h₃ h₄
  have hscores : ∀ state, (policy.scoreByState state).isFinite = true := by
    simp only [evidenceStates, Option.map_eq_none_iff, List.find?_eq_none, List.mem_cons,
      List.not_mem_nil, or_false, forall_eq_or_imp, forall_eq, Bool.not_eq_true,
      Bool.not_eq_false'] at h
    intro state
    cases state <;> simp [h]
  rw [ExtRat.eq_fin_of_isFinite hcap,
    ExtRat.eq_fin_of_isFinite (hscores .externallyResolved)] at h₁
  rw [ExtRat.eq_fin_of_isFinite hdecay] at h₂
  rw [ExtRat.eq_fin_of_isFinite hasym] at h₃
  rw [ExtRat.eq_fin_of_isFinite hshrink] at h₄
  simp at h₁ h₂ h₃ h₄
  exact
    { cap_pos := h₁.1
      cap_lt := h₁.2
      decay_pos := h₂.1
      decay_lt_one := h₂.2
      asymmetry_nonneg := h₃
      shrink_nonneg := h₄.1
      shrink_le_one := h₄.2
      score_finite := hscores }

/-- A policy that passes every check is accepted. -/
theorem accepted_of_checkPolicy {input : EvidenceLedger} {policy : EvidencePolicy}
    (h : checkPolicy input policy = none) : policy.Accepted := by
  unfold checkPolicy at h
  split_ifs at h
  split at h
  · cases h
  · rename_i hfields
    simp only [finiteFields, List.find?_eq_none, List.mem_cons, List.not_mem_nil, or_false,
      forall_eq_or_imp, forall_eq, Bool.not_eq_true, Bool.not_eq_false'] at hfields
    obtain ⟨hcap, hdecay, hasym, hshrink⟩ := hfields
    exact accepted_of_checkRanges h hcap hdecay hasym hshrink

/-- An evaluation that returns has an accepted policy, distinct ids and a first report, and
returns the verdict on them. -/
theorem evaluateEvidence_eq_ok {input : EvidenceLedger} {policy : EvidencePolicy}
    {r : EvidencePolicyResult} :
    evaluateEvidence input policy = .ok r ↔
      checkPolicy input policy = none ∧
      ((admissibleEntries input).map fun item => item.entry.id).Nodup ∧
      ∃ firstReport,
        (admissibleEntries input).find? (fun item => item.entry.kind = .report) =
          some firstReport ∧
        ∃ confirmers t verdict state,
          confirmers = (confirmerKeys firstReport (admissibleEntries input)).card ∧
          t = tally firstReport (admissibleEntries input) ∧
          verdict = judge policy firstReport confirmers t ∧
          state = overlayExpired input.now verdict.1 verdict.2 ∧
          isoInstant verdict.2 = .ok r.expiresAt ∧ r.state = state ∧
          r.confidenceScore = scoreOf input policy state confirmers t.negatorKeys.card ∧
          r.routingEligible = decide (state = .externallyResolved) := by
  have hdup : firstDuplicate [] (admissibleEntries input) = none ↔
      ((admissibleEntries input).map fun item => item.entry.id).Nodup := by
    simp [firstDuplicate_eq_none_iff]
  constructor
  · intro h
    unfold evaluateEvidence at h
    split at h
    · cases h
    · rename_i hcheck
      simp only at h
      split at h
      · cases h
      · rename_i hnone
        split at h
        · cases h
        · rename_i firstReport hreport
          split at h
          · cases h
          · rename_i expiresAt hiso
            cases h
            exact ⟨hcheck, hdup.mp hnone, firstReport, hreport, _, _, _, _, rfl, rfl, rfl, rfl,
              hiso, rfl, rfl, rfl⟩
  · rintro ⟨hcheck, hids, firstReport, hreport, _, _, _, _, rfl, rfl, rfl, rfl, hiso, hstate,
      hscore, hrouting⟩
    obtain ⟨state, score, routing, expiresAt⟩ := r
    simp only at hiso hstate hscore hrouting
    subst hstate hscore hrouting
    simp only [evaluateEvidence, hcheck, hdup.mpr hids, hreport, hiso]

/-- An accepted ledger is evaluated to an expiry up to `limit` exactly when the verdict's expiry
is a date up to there. -/
theorem evaluateEvidence_expiresAt_le_iff {input : EvidenceLedger} {policy : EvidencePolicy}
    {firstReport : SortedEntry} (hcheck : checkPolicy input policy = none)
    (hids : ((admissibleEntries input).map fun item => item.entry.id).Nodup)
    (hreport : (admissibleEntries input).find? (fun item => item.entry.kind = .report) =
      some firstReport) (limit : ℤ) :
    (∃ r, evaluateEvidence input policy = .ok r ∧ r.expiresAt ≤ limit) ↔
      ∃ expiresAt, isoInstant (judge policy firstReport
          (confirmerKeys firstReport (admissibleEntries input)).card
          (tally firstReport (admissibleEntries input))).2 = .ok expiresAt ∧
        expiresAt ≤ limit := by
  constructor
  · rintro ⟨r, hr, hle⟩
    obtain ⟨-, -, first, hfirst, _, _, _, _, rfl, rfl, rfl, rfl, hiso, -, -, -⟩ :=
      Iff.mp evaluateEvidence_eq_ok hr
    rw [hreport, Option.some_inj] at hfirst
    subst hfirst
    exact ⟨_, hiso, hle⟩
  · rintro ⟨expiresAt, hiso, hle⟩
    exact ⟨⟨_, _, _, expiresAt⟩, Iff.mpr evaluateEvidence_eq_ok ⟨hcheck, hids, firstReport, hreport,
      _, _, _, _, rfl, rfl, rfl, rfl, hiso, rfl, rfl, rfl⟩, hle⟩

/-- An expiry that is written out is a rational within the range of a date. -/
theorem isoInstant_eq_ok {x : ExtRat} {ms : ℤ} :
    isoInstant x = .ok ms ↔
      ∃ q : ℚ, x = .fin q ∧ |q| ≤ (Instant.maxMs : ℚ) ∧ ms = ExtRat.truncRat q := by
  constructor
  · intro h
    cases x with
    | fin q =>
      simp only [isoInstant] at h
      split_ifs at h with hle
      cases h
      exact ⟨q, rfl, hle, rfl⟩
    | nan => cases h
    | negInf => cases h
    | posInf => cases h
  · rintro ⟨q, rfl, hle, rfl⟩
    simp [isoInstant, hle]

/-- An instant is written out as it is. -/
theorem isoInstant_msOf (instant : Instant) : isoInstant (msOf instant) = .ok instant.ms := by
  refine Iff.mpr isoInstant_eq_ok ⟨instant.ms, rfl, ?_, (ExtRat.truncRat_intCast _).symm⟩
  have h := instant.valid
  exact_mod_cast abs_le.mpr h

/-- A state other than `expired` is the verdict's own, and its expiry is still ahead. -/
theorem overlayExpired_eq {now : Instant} {state s : EvidenceState} {expiresAtMs : ExtRat}
    (h : overlayExpired (some now) state expiresAtMs = s) (hs : s ≠ .expired) :
    state = s ∧ (s ≠ .negated → expiresAtMs.le (msOf now) = false) := by
  unfold overlayExpired at h
  split_ifs at h with hexp
  · exact absurd h.symm hs
  · subst h
    refine ⟨rfl, fun hneg => ?_⟩
    simpa [hneg] using hexp

/-! ## A policy and its entries -/

/-- A policy of the default scores and factors, with a lifetime of one hour and a quorum of
three. -/
def samplePolicy : EvidencePolicy where
  corroborationMinDistinctKeys := .fin 2
  peerNegationMinKeys := .fin 3
  ttlSec := .fin 3600
  maxLifetimeSec := .fin 14400
  scoreByState
    | .selfReported => .fin (3 / 10)
    | .corroborated => .fin (6 / 10)
    | .externallyResolved => .fin (9 / 10)
    | .negated => .fin (1 / 10)
    | .expired => .fin 0
  reliabilityWeight := .fin (1 / 10)
  peerConfidenceCap := .fin (3 / 4)
  confirmDecay := .fin (1 / 2)
  negateAsymmetry := .fin 2
  negateShrinkFactor := .fin (1 / 2)

/-- An entry at an instant, of a reporter. -/
def sampleEntry (id : String) (kind : EvidenceKind) (reporterKey : String) (atMs : Instant) :
    EvidenceEntry :=
  ⟨id, some atMs, kind, some reporterKey, none⟩

end OpenConditions.Core

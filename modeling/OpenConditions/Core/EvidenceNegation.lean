import Mathlib.Tactic.Linarith
import Mathlib.Tactic.FieldSimp
import Mathlib.Tactic.Ring
import OpenConditions.Core.EvidenceLedger

set_option relaxedAutoImplicit false
set_option autoImplicit false

/-!
# One more negation of a live crowd report

A negation below the quorum shrinks the life left *from the last negation on*, by the shrink
factor to the number of distinct negators.  One more negation therefore moves two things at once:
the factor, which shortens the report's life, and the anchor, which lengthens it.

## Main definitions

* `IsPeerNegation` — an entry the pass counts as a negation by a peer.
* `anchoredExpiry` — the shrunk expiry, as a function of its anchor and of the negators.
* `NegationShortens` — the condition on the ledger and the new negation.

## Main results

* `tally_insert` — what one more negation changes in what the pass keeps.
* `negation_shortens_iff` — the expiry does not move later exactly under that condition.
-/

namespace OpenConditions.Core

/-! ## What a negation changes in the pass -/

/-- The entry is a negation by the key `k`, which is not the originator's. -/
def IsPeerNegation (originatingKey : Option String) (entry : EvidenceEntry) (k : String) : Prop :=
  (entry.kind = .negate ∨ entry.kind = .cancel) ∧ entry.reporterKey = some k ∧
    originatingKey ≠ some k

section Step

variable {originatingKey : Option String} {t : Tally} {item : SortedEntry} {k : String}

/-- A peer negation adds its key and becomes the last one. -/
theorem Tally.step_of_isPeerNegation (h : IsPeerNegation originatingKey item.entry k) :
    t.step originatingKey item =
      { t with negatorKeys := insert k t.negatorKeys, lastPeerNegate := some item } := by
  obtain ⟨hkind | hkind, hkey, hne⟩ := h <;> simp [step, hkind, hkey, hne]

/-- Any other entry leaves the negations as they are. -/
theorem Tally.step_of_not_isPeerNegation (h : ¬∃ k, IsPeerNegation originatingKey item.entry k)
    (t : Tally) : (t.step originatingKey item).negatorKeys = t.negatorKeys ∧
      (t.step originatingKey item).lastPeerNegate = t.lastPeerNegate := by
  unfold step
  unfold IsPeerNegation at h
  cases hkind : item.entry.kind with
  | report => simp
  | confirm => simp
  | external => cases item.entry.external <;> simp
  | cancel =>
    cases hkey : item.entry.reporterKey with
    | none => simp
    | some key =>
      by_cases hk : originatingKey = some key
      · simp [hk]
      · exact absurd ⟨key, Or.inr hkind, hkey, hk⟩ h
  | negate =>
    cases hkey : item.entry.reporterKey with
    | none => simp
    | some key =>
      by_cases hk : originatingKey = some key
      · simp [hk]
      · exact absurd ⟨key, Or.inl hkind, hkey, hk⟩ h

/-- Two states of the pass that differ in the peers' negations only. -/
structure Tally.SameButNegations (t t' : Tally) : Prop where
  retraction : t'.retraction = t.retraction
  lastExternal : t'.lastExternal = t.lastExternal
  lastPositiveAtMs : t'.lastPositiveAtMs = t.lastPositiveAtMs

/-- A step keeps two such states alike. -/
theorem Tally.SameButNegations.step {t t' : Tally} (h : t.SameButNegations t')
    (originatingKey : Option String) (item : SortedEntry) :
    (t.step originatingKey item).SameButNegations (t'.step originatingKey item) := by
  obtain ⟨h₁, h₂, h₃⟩ := h
  unfold Tally.step
  cases item.entry.kind with
  | report => exact ⟨h₁, h₂, by rw [h₃]⟩
  | confirm => exact ⟨h₁, h₂, by rw [h₃]⟩
  | external => cases item.entry.external <;> exact ⟨h₁, by simp [h₂], h₃⟩
  | cancel =>
    cases item.entry.reporterKey with
    | none => exact ⟨h₁, h₂, h₃⟩
    | some key =>
      by_cases hk : originatingKey = some key
      · simp only [if_pos hk]
        exact ⟨by rw [h₁], h₂, h₃⟩
      · simp only [if_neg hk]
        exact ⟨h₁, h₂, h₃⟩
  | negate =>
    cases item.entry.reporterKey with
    | none => exact ⟨h₁, h₂, h₃⟩
    | some key =>
      by_cases hk : originatingKey = some key
      · simp only [if_pos hk]
        exact ⟨by rw [h₁], h₂, h₃⟩
      · simp only [if_neg hk]
        exact ⟨h₁, h₂, h₃⟩

/-- The passes with and without a negation of `k` at `at'`, once it has been taken in: the keys
differ by `k`, and the last negation is the later of the two. -/
structure Tally.OneMore (k : String) (at' : Instant) (t t' : Tally) : Prop
    extends t.SameButNegations t' where
  negatorKeys : t'.negatorKeys = insert k t.negatorKeys
  last : ∃ item, t'.lastPeerNegate = some item ∧
    item.atMs = (t.lastPeerNegate.map SortedEntry.atMs).elim at' (max at')

/-- A later entry keeps the two passes one negation apart. -/
theorem Tally.OneMore.step {at' : Instant} {t t' : Tally} (h : t.OneMore k at' t')
    (originatingKey : Option String) (hat : at' ≤ item.atMs) :
    (t.step originatingKey item).OneMore k at' (t'.step originatingKey item) := by
  have hsame := h.toSameButNegations.step originatingKey item
  by_cases hneg : ∃ key, IsPeerNegation originatingKey item.entry key
  · obtain ⟨key, hneg⟩ := hneg
    have ht := Tally.step_of_isPeerNegation (t := t) hneg
    have ht' := Tally.step_of_isPeerNegation (t := t') hneg
    refine ⟨hsame, ?_, item, by rw [ht'], ?_⟩
    · rw [ht, ht']
      simp only [h.negatorKeys, Finset.insert_comm]
    · rw [ht]
      simp [max_eq_right hat]
  · obtain ⟨hkeys, hlast⟩ := Tally.step_of_not_isPeerNegation hneg t
    obtain ⟨hkeys', hlast'⟩ := Tally.step_of_not_isPeerNegation hneg t'
    refine ⟨hsame, ?_, ?_⟩
    · rw [hkeys, hkeys', h.negatorKeys]
    · rw [hlast, hlast']
      exact h.last

end Step

/-- The last negation of a pass is one of the entries it has seen. -/
theorem lastPeerNegate_mem (originatingKey : Option String) {items : List SortedEntry} {t : Tally}
    {item : SortedEntry} (h : (items.foldl (Tally.step originatingKey) t).lastPeerNegate = some item) :
    item ∈ items ∨ t.lastPeerNegate = some item := by
  induction items generalizing t with
  | nil => exact Or.inr h
  | cons first rest ih =>
    rcases ih h with hmem | hlast
    · exact Or.inl (List.mem_cons_of_mem _ hmem)
    · by_cases hneg : ∃ key, IsPeerNegation originatingKey first.entry key
      · obtain ⟨key, hneg⟩ := hneg
        rw [Tally.step_of_isPeerNegation hneg] at hlast
        cases hlast
        exact Or.inl (List.mem_cons_self ..)
      · exact Or.inr ((Tally.step_of_not_isPeerNegation hneg t).2 ▸ hlast)

/-- A pass over later entries keeps two passes one negation apart. -/
theorem Tally.OneMore.foldl {k : String} {at' : Instant} (originatingKey : Option String)
    {items : List SortedEntry} (hat : ∀ item ∈ items, at' ≤ item.atMs) {t t' : Tally}
    (h : t.OneMore k at' t') :
    (items.foldl (Tally.step originatingKey) t).OneMore k at'
      (items.foldl (Tally.step originatingKey) t') := by
  induction items generalizing t t' with
  | nil => exact h
  | cons item rest ih =>
    exact ih (fun x hx => hat x (List.mem_cons_of_mem _ hx))
      (h.step originatingKey (hat item (List.mem_cons_self ..)))

/-- **One more negation in the pass.** The pass over a sorted ledger with one more peer negation
keeps what the pass without it keeps, with the key among the negators and the later of the two
last negations. -/
theorem tally_insert {firstReport : SortedEntry} {before after : List SortedEntry}
    {e : EvidenceEntry} {at' : Instant} {k : String}
    (hneg : IsPeerNegation firstReport.entry.reporterKey e k)
    (hsorted : (before ++ ⟨e, at'⟩ :: after).Pairwise SortedEntry.before) :
    (tally firstReport (before ++ after)).OneMore k at'
      (tally firstReport (before ++ ⟨e, at'⟩ :: after)) := by
  rw [List.pairwise_append, List.pairwise_cons] at hsorted
  obtain ⟨-, ⟨hafter, -⟩, hbefore⟩ := hsorted
  unfold tally
  rw [List.foldl_append, List.foldl_append, List.foldl_cons]
  refine Tally.OneMore.foldl _ (fun item hitem => (hafter item hitem).atMs_le) ?_
  rw [Tally.step_of_isPeerNegation hneg]
  refine ⟨⟨rfl, rfl, rfl⟩, rfl, _, rfl, ?_⟩
  cases hlast : (before.foldl (Tally.step firstReport.entry.reporterKey)
      ⟨∅, none, none, none, firstReport.atMs⟩).lastPeerNegate with
  | none => rfl
  | some item =>
    rcases lastPeerNegate_mem _ hlast with hmem | hinit
    · have hle := (hbefore item hmem ⟨e, at'⟩ (List.mem_cons_self ..)).atMs_le
      simp [max_eq_left hle]
    · cases hinit

/-- A pass has a last negation exactly when it has negators. -/
theorem lastPeerNegate_eq_none_iff (originatingKey : Option String) {items : List SortedEntry}
    {t : Tally} (h : t.lastPeerNegate = none ↔ t.negatorKeys = ∅) :
    (items.foldl (Tally.step originatingKey) t).lastPeerNegate = none ↔
      (items.foldl (Tally.step originatingKey) t).negatorKeys = ∅ := by
  induction items generalizing t with
  | nil => exact h
  | cons item rest ih =>
    refine ih ?_
    by_cases hneg : ∃ key, IsPeerNegation originatingKey item.entry key
    · obtain ⟨key, hneg⟩ := hneg
      simp [Tally.step_of_isPeerNegation hneg]
    · obtain ⟨hkeys, hlast⟩ := Tally.step_of_not_isPeerNegation hneg t
      rw [hkeys, hlast, h]

/-! ## What the pass has kept, read off the ledger -/

/-- The key of an entry that is a peer's negation. -/
def peerNegator (firstReport item : SortedEntry) : Option String :=
  if item.entry.kind = .negate ∨ item.entry.kind = .cancel then
    item.entry.reporterKey.filter fun k => decide (firstReport.entry.reporterKey ≠ some k)
  else none

/-- The distinct peers that negated. -/
def peerNegators (firstReport : SortedEntry) (items : List SortedEntry) : Finset String :=
  (items.filterMap (peerNegator firstReport)).toFinset

/-- The instant of the last negation by a peer, of sorted entries. -/
def lastNegationAt (firstReport : SortedEntry) (items : List SortedEntry) : Option Instant :=
  ((items.filter fun item => (peerNegator firstReport item).isSome).getLast?).map SortedEntry.atMs

/-- The instant of the last report or confirmation. -/
def lastPositiveAt (firstReport : SortedEntry) (items : List SortedEntry) : Instant :=
  (items.filter fun item => decide (item.entry.kind = .report ∨ item.entry.kind = .confirm)).foldl
    (fun latest item => max latest item.atMs) firstReport.atMs

/-- An entry has a peer negator exactly when it is a negation by that key. -/
theorem peerNegator_eq_some {firstReport item : SortedEntry} {k : String} :
    peerNegator firstReport item = some k ↔
      IsPeerNegation firstReport.entry.reporterKey item.entry k := by
  unfold peerNegator IsPeerNegation
  split_ifs with hkind
  · simp only [Option.filter_eq_some_iff, decide_eq_true_eq, hkind, true_and]
  · simp [hkind]

section Kept

variable (firstReport : SortedEntry) (items : List SortedEntry) (t : Tally)

/-- The pass adds the peers that negated. -/
theorem foldl_negatorKeys :
    (items.foldl (Tally.step firstReport.entry.reporterKey) t).negatorKeys =
      t.negatorKeys ∪ peerNegators firstReport items := by
  induction items generalizing t with
  | nil => simp [peerNegators]
  | cons item rest ih =>
    rw [List.foldl_cons, ih]
    unfold peerNegators
    cases hk : peerNegator firstReport item with
    | some k =>
      rw [Tally.step_of_isPeerNegation (Iff.mp peerNegator_eq_some hk), List.filterMap_cons, hk]
      simp only [List.toFinset_cons, Finset.insert_union, Finset.union_insert]
    | none =>
      have hneg : ¬∃ k, IsPeerNegation firstReport.entry.reporterKey item.entry k := by
        simp [← peerNegator_eq_some, hk]
      rw [(Tally.step_of_not_isPeerNegation hneg t).1, List.filterMap_cons, hk]

/-- The pass keeps the last of the peers' negations. -/
theorem foldl_lastPeerNegate :
    (items.foldl (Tally.step firstReport.entry.reporterKey) t).lastPeerNegate =
      ((items.filter fun item => (peerNegator firstReport item).isSome).getLast? <|>
        t.lastPeerNegate) := by
  induction items generalizing t with
  | nil => simp
  | cons item rest ih =>
    rw [List.foldl_cons, ih]
    cases hk : peerNegator firstReport item with
    | some k =>
      rw [Tally.step_of_isPeerNegation (Iff.mp peerNegator_eq_some hk),
        List.filter_cons_of_pos (by simp [hk]), List.getLast?_cons]
      cases (rest.filter fun item => (peerNegator firstReport item).isSome).getLast? <;> simp
    | none =>
      have hneg : ¬∃ k, IsPeerNegation firstReport.entry.reporterKey item.entry k := by
        simp [← peerNegator_eq_some, hk]
      rw [(Tally.step_of_not_isPeerNegation hneg t).2, List.filter_cons_of_neg (by simp [hk])]

/-- The pass keeps the latest of the reports and confirmations. -/
theorem foldl_lastPositiveAtMs (originatingKey : Option String) :
    (items.foldl (Tally.step originatingKey) t).lastPositiveAtMs =
      (items.filter fun item =>
        decide (item.entry.kind = .report ∨ item.entry.kind = .confirm)).foldl
          (fun latest item => max latest item.atMs) t.lastPositiveAtMs := by
  induction items generalizing t with
  | nil => rfl
  | cons item rest ih =>
    rw [List.foldl_cons, ih]
    unfold Tally.step
    cases hkind : item.entry.kind with
    | report => simp [hkind]
    | confirm => simp [hkind]
    | external => cases item.entry.external <;> simp [hkind]
    | cancel =>
      cases item.entry.reporterKey with
      | none => simp [hkind]
      | some key => by_cases hk : originatingKey = some key <;> simp [hkind, hk]
    | negate =>
      cases item.entry.reporterKey with
      | none => simp [hkind]
      | some key => by_cases hk : originatingKey = some key <;> simp [hkind, hk]

end Kept

/-- What the pass over the ledger keeps of the crowd. -/
theorem tally_eq (firstReport : SortedEntry) (items : List SortedEntry) :
    (tally firstReport items).negatorKeys = peerNegators firstReport items ∧
      (tally firstReport items).lastPeerNegate.map SortedEntry.atMs =
        lastNegationAt firstReport items ∧
      (tally firstReport items).lastPositiveAtMs = lastPositiveAt firstReport items := by
  refine ⟨?_, ?_, ?_⟩
  · unfold tally
    rw [foldl_negatorKeys, Finset.empty_union]
  · unfold tally lastNegationAt
    rw [foldl_lastPeerNegate]
    simp
  · unfold tally lastPositiveAt
    rw [foldl_lastPositiveAtMs]

/-! ## The shrunk expiry -/

/-- The expiry shrunk from an anchor by a number of negators. -/
def anchoredExpiry (decay factor : ℚ) (negators : ℕ) (anchor : ℚ) : ℚ :=
  anchor + (decay - anchor) * factor ^ negators

section Shrink

variable {decay factor anchor : ℚ} {negators : ℕ}

/-- The shrunk expiry is never past the decay. -/
theorem anchoredExpiry_le (h₀ : 0 ≤ factor) (h₁ : factor ≤ 1) (ha : anchor ≤ decay) :
    anchoredExpiry decay factor negators anchor ≤ decay := by
  have hpow : factor ^ negators ≤ 1 := pow_le_one₀ h₀ h₁
  have hmul : (decay - anchor) * factor ^ negators ≤ (decay - anchor) * 1 :=
    mul_le_mul_of_nonneg_left hpow (sub_nonneg.mpr ha)
  unfold anchoredExpiry
  linarith

/-- More negators shrink no less. -/
theorem anchoredExpiry_anti {more : ℕ} (h₀ : 0 ≤ factor) (h₁ : factor ≤ 1) (ha : anchor ≤ decay)
    (hn : negators ≤ more) :
    anchoredExpiry decay factor more anchor ≤ anchoredExpiry decay factor negators anchor := by
  have hpow : factor ^ more ≤ factor ^ negators := pow_le_pow_of_le_one h₀ h₁ hn
  have hmul := mul_le_mul_of_nonneg_left hpow (sub_nonneg.mpr ha)
  unfold anchoredExpiry
  linarith

/-- The shrunk expiry is never before its anchor. -/
theorem le_anchoredExpiry (h₀ : 0 ≤ factor) (ha : anchor ≤ decay) :
    anchor ≤ anchoredExpiry decay factor negators anchor := by
  have hmul : 0 ≤ (decay - anchor) * factor ^ negators :=
    mul_nonneg (sub_nonneg.mpr ha) (pow_nonneg h₀ _)
  unfold anchoredExpiry
  linarith

/-- Without negators the expiry is the decay. -/
@[simp] theorem shrinkExpiryForNegations_zero (expiryMs negateAtMs : ExtRat) (factor : ℚ) :
    shrinkExpiryForNegations expiryMs negateAtMs 0 factor = expiryMs := rfl

/-- With negators and life left at the last of them, the expiry is anchored there. -/
theorem shrinkExpiryForNegations_eq (h₀ : 0 ≤ factor) (h₁ : factor ≤ 1) (ha : anchor < decay)
    (hn : negators ≠ 0) :
    shrinkExpiryForNegations (.fin decay) (.fin anchor) negators factor =
      .fin (anchoredExpiry decay factor negators anchor) := by
  have hrem : ¬decay - anchor ≤ 0 := by linarith
  have hle : anchoredExpiry decay factor negators anchor ≤ decay := anchoredExpiry_le h₀ h₁ ha.le
  unfold anchoredExpiry at hle ⊢
  simp [shrinkExpiryForNegations, hn, hrem, min_eq_right hle]

/-- An expiry without life left at the last negation is the decay. -/
theorem shrinkExpiryForNegations_of_le (ha : decay ≤ anchor) :
    shrinkExpiryForNegations (.fin decay) (.fin anchor) negators factor = .fin decay := by
  have hrem : decay - anchor ≤ 0 := by linarith
  simp [shrinkExpiryForNegations, hrem]

end Shrink

/-! ## The verdict of a live crowd report -/

section Verdict

variable {policy : EvidencePolicy} {firstReport : SortedEntry} {confirmers : ℕ} {t : Tally}

/-- A crowd verdict has neither an external resolution nor a retraction, and its expiry is the
crowd's. -/
theorem judge_crowd (h : (judge policy firstReport confirmers t).1 = .selfReported ∨
      (judge policy firstReport confirmers t).1 = .corroborated) :
    t.lastExternal = none ∧ t.retraction = none ∧
      (judge policy firstReport confirmers t).2 = crowdExpiryMs policy firstReport t := by
  unfold judge at h ⊢
  cases hext : t.lastExternal with
  | some resolved =>
    obtain ⟨item, external⟩ := resolved
    cases hout : external.outcome <;> simp [hext, hout] at h
  | none =>
    cases hret : t.retraction with
    | some item => simp [hext, hret] at h
    | none =>
      simp only [hext, hret, true_and] at h ⊢
      split at h
      · simp at h
      · split_ifs <;> rfl

/-- Without a resolution or a retraction, the peers' negations end the report when they reach
their quorum, and shrink its expiry otherwise. -/
theorem judge_peers {item : SortedEntry} (hext : t.lastExternal = none)
    (hret : t.retraction = none) (hlast : t.lastPeerNegate = some item) :
    (judge policy firstReport confirmers t).2 =
      if negationQuorum policy t.negatorKeys.card confirmers then msOf item.atMs
      else crowdExpiryMs policy firstReport t := by
  unfold judge
  simp only [hext, hret, hlast]
  cases negationQuorum policy t.negatorKeys.card confirmers with
  | true => rfl
  | false =>
    simp only [Bool.false_eq_true, if_false]
    split_ifs <;> rfl

/-- The expiry of a crowd state with a decay, as an anchored expiry. -/
def heldExpiry (decay factor : ℚ) (negators : ℕ) (anchor : Option Instant) : ℚ :=
  anchor.elim decay fun a => anchoredExpiry decay factor negators a.ms

/-- A crowd state that expires at an instant ahead of its last negation decays at one, and
expires anchored at that negation. -/
theorem crowdExpiryMs_eq (hp : policy.Accepted) {q : ℚ}
    (hq : crowdExpiryMs policy firstReport t = .fin q)
    (hlast : t.lastPeerNegate = none ↔ t.negatorKeys = ∅)
    (hahead : ∀ item, t.lastPeerNegate = some item → (item.atMs.ms : ℚ) < q) :
    ∃ decay : ℚ, decayExpiryMs policy firstReport t = .fin decay ∧ q ≤ decay ∧
      q = heldExpiry decay policy.negateShrinkFactor.toRat t.negatorKeys.card
        (t.lastPeerNegate.map SortedEntry.atMs) := by
  cases hn : t.lastPeerNegate with
  | none =>
    simp only [crowdExpiryMs, hlast.mp hn, Finset.card_empty, shrinkExpiryForNegations_zero] at hq
    exact ⟨q, hq, le_rfl, rfl⟩
  | some item =>
    have hcard : t.negatorKeys.card ≠ 0 := by
      intro h
      rw [hlast.mpr (Finset.card_eq_zero.mp h)] at hn
      cases hn
    have hitem := hahead item hn
    simp only [crowdExpiryMs, hn, Option.map_some, Option.getD_some, msOf] at hq
    cases hdecay : decayExpiryMs policy firstReport t with
    | fin decay =>
      rw [hdecay] at hq
      rcases lt_or_ge (item.atMs.ms : ℚ) decay with hlt | hge
      · rw [shrinkExpiryForNegations_eq hp.shrink_nonneg hp.shrink_le_one hlt hcard,
          ExtRat.fin.injEq] at hq
        refine ⟨decay, rfl, ?_, hq.symm⟩
        exact hq ▸ anchoredExpiry_le hp.shrink_nonneg hp.shrink_le_one hlt.le
      · rw [shrinkExpiryForNegations_of_le hge, ExtRat.fin.injEq] at hq
        linarith
    | nan =>
      rw [hdecay] at hq
      simp [shrinkExpiryForNegations, hcard, ExtRat.sub, ExtRat.le, ExtRat.min] at hq
    | negInf =>
      rw [hdecay] at hq
      simp [shrinkExpiryForNegations, hcard, ExtRat.sub, ExtRat.neg, ExtRat.add, ExtRat.le] at hq
    | posInf =>
      rw [hdecay] at hq
      simp only [shrinkExpiryForNegations, hcard, if_false, ExtRat.sub, ExtRat.neg, ExtRat.add,
        ExtRat.le, Bool.false_eq_true, ExtRat.mul, ExtRat.scaleInf] at hq
      split_ifs at hq <;> simp [ExtRat.min, ExtRat.le] at hq

end Verdict

/-! ## The condition, and the theorem -/

/-- When the report decays, negations apart, read off the ledger. -/
def decayAt (policy : EvidencePolicy) (firstReport : SortedEntry) (items : List SortedEntry) : ℚ :=
  (((msOf (lastPositiveAt firstReport items)).add (policy.ttlSec.mul (.fin 1000))).min
    (maxLifetimeEndMs policy firstReport)).toRat

/-- When one more negation, of the key `k` at `at'`, does not move the expiry of a live crowd
report later: the peers' negations reach their quorum with it, or no peer negated before, or a
peer negated at `at'` or later, or the life it leaves is short enough — counted from `at'` and
shrunk for the negators with `k` among them it ends, as a date and to the whole millisecond, by
when the life counted from the last negation did. -/
def NegationShortens (policy : EvidencePolicy) (firstReport : SortedEntry)
    (items : List SortedEntry) (k : String) (at' : Instant) : Prop :=
  let negators := peerNegators firstReport items
  let shrunk := anchoredExpiry (decayAt policy firstReport items) policy.negateShrinkFactor.toRat
  negationQuorum policy (insert k negators).card (confirmerKeys firstReport items).card = true ∨
    ∀ last, lastNegationAt firstReport items = some last → last < at' →
      shrunk (insert k negators).card at'.ms ≤ Instant.maxMs ∧
        ExtRat.truncRat (shrunk (insert k negators).card at'.ms) ≤
          ExtRat.truncRat (shrunk negators.card last.ms)

/-- A whole number below the integer part of a rational is below the rational. -/
theorem lt_of_lt_truncRat {n : ℤ} {q : ℚ} (h : n < ExtRat.truncRat q) : (n : ℚ) < q := by
  unfold ExtRat.truncRat at h
  split_ifs at h
  · have hle : ((n + 1 : ℤ) : ℚ) ≤ q := Int.le_floor.mp h
    push_cast at hle
    linarith
  · exact Int.lt_ceil.mp h

/-- A rational at or after an instant is a date exactly when it is up to the last one. -/
theorem abs_le_maxMs_iff {instant : Instant} {q : ℚ} (h : (instant.ms : ℚ) ≤ q) :
    |q| ≤ (Instant.maxMs : ℚ) ↔ q ≤ Instant.maxMs := by
  have hmin : -(Instant.maxMs : ℚ) ≤ instant.ms := by exact_mod_cast instant.valid.1
  rw [abs_le]
  exact and_iff_right (hmin.trans h)

/-- Without the quorum, the pass with one more negation expires anchored at the last one. -/
theorem crowdExpiryMs_oneMore {policy : EvidencePolicy} {firstReport : SortedEntry}
    {t t' : Tally} {k : String} {at' : Instant} {decay : ℚ} (hp : policy.Accepted)
    (hmore : t.OneMore k at' t') (hdecay : decayExpiryMs policy firstReport t = .fin decay)
    (hanchor : ((t.lastPeerNegate.map SortedEntry.atMs).elim at' (max at')).ms < decay) :
    crowdExpiryMs policy firstReport t' =
      .fin (anchoredExpiry decay policy.negateShrinkFactor.toRat (insert k t.negatorKeys).card
        ((t.lastPeerNegate.map SortedEntry.atMs).elim at' (max at')).ms) := by
  obtain ⟨item, hitem, hat⟩ := hmore.last
  have hdecay' : decayExpiryMs policy firstReport t' = .fin decay := by
    rw [← hdecay]
    simp only [decayExpiryMs, hmore.lastPositiveAtMs]
  have hcard : (insert k t.negatorKeys).card ≠ 0 :=
    Finset.card_ne_zero_of_mem (Finset.mem_insert_self k _)
  unfold crowdExpiryMs
  simp only [hdecay', hitem, hat, Option.map_some, Option.getD_some, msOf, hmore.negatorKeys]
  exact shrinkExpiryForNegations_eq hp.shrink_nonneg hp.shrink_le_one hanchor hcard

/-- The decay read off the ledger is the decay of the pass. -/
theorem decayAt_eq (policy : EvidencePolicy) (firstReport : SortedEntry)
    (items : List SortedEntry) :
    decayAt policy firstReport items =
      (decayExpiryMs policy firstReport (tally firstReport items)).toRat := by
  unfold decayAt decayExpiryMs
  rw [(tally_eq firstReport items).2.2]

/-- The ledger with one more negation has the first report and the confirmers of the ledger. -/
theorem negation_frame (before after : List SortedEntry) (at' : Instant)
    {firstReport : SortedEntry} {e : EvidenceEntry} {k : String}
    (hneg : IsPeerNegation firstReport.entry.reporterKey e k) :
    (before ++ ⟨e, at'⟩ :: after).find? (fun item => item.entry.kind = .report) =
        (before ++ after).find? (fun item => item.entry.kind = .report) ∧
      confirmerKeys firstReport (before ++ ⟨e, at'⟩ :: after) =
        confirmerKeys firstReport (before ++ after) := by
  have hreport : e.kind ≠ .report := by
    obtain ⟨hkind | hkind, -⟩ := hneg <;> simp [hkind]
  have hconfirm : confirmerKey firstReport ⟨e, at'⟩ = none := by
    obtain ⟨hkind | hkind, -⟩ := hneg <;> simp [confirmerKey, hkind]
  constructor
  · simp [List.find?_append, hreport]
  · simp [confirmerKeys, List.filterMap_append, hconfirm]

/-- The expiry anchored at the last negation, with `k` among the negators, is by the expiry held
before, to the whole millisecond, exactly when that is so for a negation that is the last one. -/
theorem renewed_le_iff {decay factor q : ℚ} {negators more : ℕ} {last : Option Instant}
    {at' : Instant} (h₀ : 0 ≤ factor) (h₁ : factor ≤ 1) (hn : negators ≤ more)
    (hmax : q ≤ Instant.maxMs) (hq : q = heldExpiry decay factor negators last)
    (hat : (at'.ms : ℚ) ≤ decay) (hlast : ∀ a, last = some a → (a.ms : ℚ) ≤ decay) :
    (anchoredExpiry decay factor more (last.elim at' (max at')).ms ≤ Instant.maxMs ∧
        ExtRat.truncRat (anchoredExpiry decay factor more (last.elim at' (max at')).ms) ≤
          ExtRat.truncRat q) ↔
      ∀ a, last = some a → a < at' →
        anchoredExpiry decay factor more at'.ms ≤ Instant.maxMs ∧
          ExtRat.truncRat (anchoredExpiry decay factor more at'.ms) ≤
            ExtRat.truncRat (anchoredExpiry decay factor negators a.ms) := by
  cases last with
  | none =>
    have hle : anchoredExpiry decay factor more at'.ms ≤ q :=
      (anchoredExpiry_le h₀ h₁ hat).trans_eq hq.symm
    simp [hle.trans hmax, ExtRat.truncRat_mono hle]
  | some a =>
    simp only [heldExpiry, Option.elim_some] at hq ⊢
    rcases lt_or_ge a at' with hlt | hge
    · rw [max_eq_left hlt.le, hq]
      simp [hlt]
    · have hle : anchoredExpiry decay factor more a.ms ≤ q :=
        (anchoredExpiry_anti h₀ h₁ (hlast a rfl) hn).trans_eq hq.symm
      rw [max_eq_right hge]
      simp [hle.trans hmax, ExtRat.truncRat_mono hle, not_lt.mpr hge]

/-- What an evaluation to a live crowd state has computed: a crowd verdict with a finite expiry
ahead of the evaluation instant, and with it of every negation. -/
structure HeldUntil (policy : EvidencePolicy) (firstReport : SortedEntry)
    (items : List SortedEntry) (now : Instant) (decay q : ℚ) : Prop where
  lastExternal : (tally firstReport items).lastExternal = none
  retraction : (tally firstReport items).retraction = none
  last_le : ∀ a, lastNegationAt firstReport items = some a → a ≤ now
  now_lt : (now.ms : ℚ) < q
  le_maxMs : q ≤ Instant.maxMs
  decay_eq : decayExpiryMs policy firstReport (tally firstReport items) = .fin decay
  le_decay : q ≤ decay
  eq_heldExpiry : q = heldExpiry decay policy.negateShrinkFactor.toRat
    (peerNegators firstReport items).card (lastNegationAt firstReport items)

/-- The last negation is one of the entries. -/
theorem lastNegationAt_le {firstReport : SortedEntry} {input : EvidenceLedger} {now a : Instant}
    (hnow : input.now = some now)
    (ha : lastNegationAt firstReport (admissibleEntries input) = some a) : a ≤ now := by
  obtain ⟨item, hitem, rfl⟩ := Option.map_eq_some_iff.mp ha
  have hmem := List.mem_of_mem_filter (List.mem_of_getLast? hitem)
  obtain ⟨-, -, now', hnow', hle⟩ := mem_admissibleEntries hmem
  rw [hnow, Option.some_inj] at hnow'
  exact hnow' ▸ hle

/-- An evaluation to a live crowd state holds until the expiry it returns. -/
theorem heldUntil_of_live {input : EvidenceLedger} {policy : EvidencePolicy}
    {r : EvidencePolicyResult} {firstReport : SortedEntry} {now : Instant}
    (hr : evaluateEvidence input policy = .ok r)
    (hlive : r.state = .selfReported ∨ r.state = .corroborated)
    (hreport : (admissibleEntries input).find? (fun item => item.entry.kind = .report) =
      some firstReport) (hnow : input.now = some now) :
    ∃ decay q, HeldUntil policy firstReport (admissibleEntries input) now decay q ∧
      r.expiresAt = ExtRat.truncRat q := by
  obtain ⟨hcheck, -, first, hfirst, _, t, _, _, rfl, ht, rfl, rfl, hiso, hstate, -, -⟩ :=
    evaluateEvidence_eq_ok.mp hr
  rw [hreport, Option.some_inj] at hfirst
  subst hfirst
  obtain ⟨q, hq, habs, hms⟩ := isoInstant_eq_ok.mp hiso
  rw [hnow] at hstate
  have hnotExpired : r.state ≠ .expired := by rcases hlive with h | h <;> simp [h]
  have hnotNegated : r.state ≠ .negated := by rcases hlive with h | h <;> simp [h]
  obtain ⟨hverdict, hahead⟩ := overlayExpired_eq hstate.symm hnotExpired
  have hnowq : (now.ms : ℚ) < q := by
    have h := hahead hnotNegated
    rw [hq] at h
    simpa [msOf] using h
  obtain ⟨hext, hret, hexpiry⟩ := judge_crowd (by rw [hverdict]; exact hlive)
  obtain ⟨hkeys, hlastAt, -⟩ := tally_eq firstReport (admissibleEntries input)
  rw [← ht] at hkeys hlastAt
  have hnone : t.lastPeerNegate = none ↔ t.negatorKeys = ∅ :=
    ht ▸ lastPeerNegate_eq_none_iff _ (by simp)
  have hlastq : ∀ item, t.lastPeerNegate = some item → (item.atMs.ms : ℚ) < q := by
    intro item hitem
    have hle : item.atMs ≤ now := lastNegationAt_le hnow (by rw [← hlastAt, hitem, Option.map_some])
    have hcast : (item.atMs.ms : ℚ) ≤ now.ms := by exact_mod_cast Instant.le_def.mp hle
    exact hcast.trans_lt hnowq
  obtain ⟨decay, hdecay, hqdecay, hheld⟩ :=
    crowdExpiryMs_eq (accepted_of_checkPolicy hcheck) (hexpiry ▸ hq) hnone hlastq
  rw [hkeys, hlastAt] at hheld
  subst ht
  exact ⟨decay, q, ⟨hext, hret, fun a ha => lastNegationAt_le hnow ha, hnowq,
    (abs_le.mp habs).2, hdecay, hqdecay, hheld⟩, hms⟩

/-- The verdict with one more negation ends by the expiry held before exactly when
`NegationShortens` holds.

**Proof sketch.** With the quorum the report ends at the last negation, which the expiry held is
ahead of.  Without it, the decay is ahead of every negation, so both expiries are anchored ones,
and the comparison of the two is the condition's. -/
theorem judge_oneMore_le_iff {policy : EvidencePolicy} {firstReport : SortedEntry}
    {items : List SortedEntry} {t' : Tally} {now at' : Instant} {decay q : ℚ} {k : String}
    (hp : policy.Accepted) (h : HeldUntil policy firstReport items now decay q)
    (hmore : (tally firstReport items).OneMore k at' t') (hbefore : (at'.ms : ℚ) < q) :
    (∃ expiresAt,
      isoInstant (judge policy firstReport (confirmerKeys firstReport items).card t').2 =
        .ok expiresAt ∧ expiresAt ≤ ExtRat.truncRat q) ↔
      NegationShortens policy firstReport items k at' := by
  obtain ⟨hkeys, hlastAt, -⟩ := tally_eq firstReport items
  obtain ⟨item, hitem, hitemAt⟩ := hmore.last
  rw [hlastAt] at hitemAt
  have hcard : t'.negatorKeys = insert k (peerNegators firstReport items) := by
    rw [hmore.negatorKeys, hkeys]
  have hlastq : ∀ a, lastNegationAt firstReport items = some a → (a.ms : ℚ) < q := by
    intro a ha
    have hcast : (a.ms : ℚ) ≤ now.ms := by exact_mod_cast Instant.le_def.mp (h.last_le a ha)
    exact hcast.trans_lt h.now_lt
  have hanchor : (((lastNegationAt firstReport items).elim at' (max at')).ms : ℚ) < q := by
    cases hlast : lastNegationAt firstReport items with
    | none => exact hbefore
    | some a =>
      simp only [Option.elim_some, Instant.ms_max, Int.cast_max]
      exact max_lt hbefore (hlastq a hlast)
  rw [judge_peers (hmore.lastExternal.trans h.lastExternal) (hmore.retraction.trans h.retraction)
    hitem, hcard]
  simp only [NegationShortens]
  cases negationQuorum policy (insert k (peerNegators firstReport items)).card
      (confirmerKeys firstReport items).card with
  | true =>
    simp only [if_true, true_or, iff_true]
    refine ⟨_, isoInstant_msOf _, ?_⟩
    rw [hitemAt]
    simpa using ExtRat.truncRat_mono hanchor.le
  | false =>
    have hrenewed := crowdExpiryMs_oneMore hp hmore h.decay_eq
      (by rw [hlastAt]; exact hanchor.trans_le h.le_decay)
    rw [hlastAt, hkeys] at hrenewed
    have hdecayAt : decayAt policy firstReport items = decay := by
      rw [decayAt_eq, h.decay_eq, ExtRat.toRat_fin]
    simp only [Bool.false_eq_true, if_false, false_or, hrenewed, hdecayAt, isoInstant_eq_ok]
    rw [← renewed_le_iff hp.shrink_nonneg hp.shrink_le_one
      (Finset.card_le_card (Finset.subset_insert k _)) h.le_maxMs h.eq_heldExpiry
      (hbefore.le.trans h.le_decay) (fun a ha => (hlastq a ha).le.trans h.le_decay)]
    have hge : (((lastNegationAt firstReport items).elim at' (max at')).ms : ℚ) ≤
        anchoredExpiry decay policy.negateShrinkFactor.toRat
          (insert k (peerNegators firstReport items)).card
          ((lastNegationAt firstReport items).elim at' (max at')).ms :=
      le_anchoredExpiry hp.shrink_nonneg (hanchor.le.trans h.le_decay)
    constructor
    · rintro ⟨_, ⟨x, hx, habs, rfl⟩, hle⟩
      rw [ExtRat.fin.injEq] at hx
      subst hx
      exact ⟨(abs_le_maxMs_iff hge).mp habs, hle⟩
    · rintro ⟨hmax, hle⟩
      exact ⟨_, ⟨_, rfl, (abs_le_maxMs_iff hge).mpr hmax, rfl⟩, hle⟩

/-- A report that one peer negated ten minutes later, seen at twenty minutes. -/
def sampleLedger : EvidenceLedger where
  entries := [sampleEntry "1" .report "a" .epoch,
    sampleEntry "2" .negate "b" ⟨600000, by decide⟩]
  now := some ⟨1200000, by decide⟩
  reporterLowerBound := none

end OpenConditions.Core

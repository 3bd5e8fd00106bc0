import OpenConditions.Federation.InboxCopies

set_option relaxedAutoImplicit false
set_option autoImplicit false

/-!
# Delivering an entry again

An entry that was delivered is delivered again, after any deliveries and any ends here.  A change
leaves the copies as they are, but for one that ended at its revision `withdrawn` or `expired`,
and one it was refused for when it was first delivered.  A retraction does, unless a change of its
record landed in between.

## Main definitions

* `ChangeSettled`, `ErasureSettled`, `RetractionSettled` — what the first delivery of an entry
  leaves, and every step that lands no change of its record preserves.
* `ActsAgain` — the entries that act when they are delivered again.

## Main results

* `redelivery_sameCopies` — the others leave every copy as it is.
-/

namespace OpenConditions.Federation

open OpenConditions.Storage

variable {W I J : Type} [DecidableEq I] {registry : Registry I J} {peer localInstanceId : String}

/-! ## Settled entries -/

/-- A change is settled: the copy of its record is another instance's, or no older. -/
def ChangeSettled (peer : String) (s : Inbox I J) (cls : RevisionedClass) (id : I)
    (revision : ℕ) : Prop :=
  ∃ c, s.copy cls id = some c ∧ (c.instanceId ≠ peer ∨ revision ≤ c.revision)

/-- An erasure is settled: the peer's copy of its record, if any, is erased. -/
def ErasureSettled (peer : String) (s : Inbox I J) (cls : RevisionedClass) (id : I) : Prop :=
  ∀ c, s.copy cls id = some c → c.instanceId ≠ peer ∨ c.reason = some erasureReason

/-- Any other retraction is settled: the peer's copy of its record, if any, is newer, or it has
ended and not lapsed, or it stands as the retraction ended it. -/
def RetractionSettled (peer : String) (s : Inbox I J) (cls : RevisionedClass) (id : I)
    (reason : String) (revision : ℕ) : Prop :=
  ∀ c, s.copy cls id = some c →
    c.instanceId ≠ peer ∨ revision < c.revision ∨
      (c.reason.isSome = true ∧ isLapsedCopy s cls id = false) ∨
        (c.reason = some reason ∧ c.revision = revision)

/-- A decision ended the copy. -/
def Decided (s : Inbox I J) (cls : RevisionedClass) (id : I) : Prop :=
  ∃ c reason, s.copy cls id = some c ∧ reason ∈ decidedTombstoneReasons ∧ c.reason = some reason

/-- The event delivers an erasure of a record. -/
def InboxEvent.Erases (event : InboxEvent W I) (cls : RevisionedClass) (id : I) : Prop :=
  ∃ entry now evidence, event = .deliver (.retraction entry) now evidence ∧
    entry.recordClass = some cls ∧ entry.recordId = id ∧ entry.reason = erasureReason

/-- A change of a record landed since an earlier state, at no later revision than its copy has. -/
def LandedSince (s₁ s : Inbox I J) (cls : RevisionedClass) (id : I) : Prop :=
  ∃ u, (cls, id, u) ∈ s.landed.drop s₁.landed.length ∧
    ∃ c, s.copy cls id = some c ∧ u ≤ c.revision

section Settled

variable {event : InboxEvent W I} {s s' : Inbox I J} {cls : RevisionedClass} {id : I}

omit [DecidableEq I] in
/-- A retraction does not lower the revision of the copy. -/
theorem le_retractedCopy (c : Copy I J) (entry : Retraction I) :
    c.revision ≤ (retractedCopy c entry).revision := by
  simp only [retractedCopy]
  cases h : entry.revision.filter fun r => decide (c.revision ≤ r) with
  | none => exact Nat.le_succ _
  | some v => exact of_decide_eq_true (Option.filter_eq_some_iff.mp h).2

omit [DecidableEq I] in
/-- A copy that is retracted otherwise than by an erasure is as it was, but for its revision and
its reason. -/
theorem retractedCopy_of_revision {c : Copy I J} {entry : Retraction I} {v : ℕ}
    (hreason : entry.reason ≠ erasureReason) (hv : entry.revision = some v)
    (hle : c.revision ≤ v) :
    retractedCopy c entry = { c with revision := v, reason := some entry.reason } := by
  simp only [retractedCopy, if_neg hreason, hv, Option.filter_some, decide_eq_true hle, if_true,
    Option.getD_some]

/-- A copy that stays as it is lapses when it did. -/
theorem isLapsedCopy_congr (hcopy : s'.copy cls id = s.copy cls id)
    (hlapsed : s'.lapsed.get (cls, id) = s.lapsed.get (cls, id)) :
    isLapsedCopy s' cls id = isLapsedCopy s cls id := by
  rw [Bool.eq_iff_iff, isLapsedCopy_iff, isLapsedCopy_iff, hcopy, hlapsed]

/-- A copy that did not end as the sweep ends lapsed ones is not one. -/
theorem isLapsedCopy_eq_false {c : Copy I J} (hcopy : s.copy cls id = some c)
    (hreason : c.reason ≠ some "expired") : isLapsedCopy s cls id = false := by
  rw [← Bool.not_eq_true, isLapsedCopy_iff]
  rintro ⟨c', hc', -, hexpired⟩
  rw [hcopy, Option.some_inj] at hc'
  rw [hc'] at hreason
  exact hreason hexpired

/-- A step lowers no revision of a copy and takes it from no instance. -/
theorem CopyStep.grows {c : Copy I J} (h : CopyStep peer event s s' cls id)
    (hc : s.copy cls id = some c) :
    ∃ c', s'.copy cls id = some c' ∧ c'.instanceId = c.instanceId ∧ c.revision ≤ c'.revision := by
  cases h with
  | kept hcopy hlapsed => exact ⟨c, by rw [hcopy, hc], rfl, le_refl _⟩
  | landed c' hcopy hpeer hheld hlanded =>
    obtain ⟨hinstance, -, hle⟩ := hheld c hc
    exact ⟨c', hcopy, hpeer.trans hinstance.symm, hle⟩
  | retracted entry held hid hevent hretracts =>
    subst hid
    have hheld := hretracts.held
    rw [hc, Option.some_inj] at hheld
    subst hheld
    refine ⟨retractedCopy c entry, ?_, rfl, le_retractedCopy c entry⟩
    rw [hretracts.copy, setCopy, if_pos ⟨rfl, rfl⟩]
  | ended held c' hcopy hcopy' hlive hended hinstance hrevision =>
    rw [hc, Option.some_inj] at hcopy
    subst hcopy
    exact ⟨c', hcopy', hinstance, hrevision⟩

/-- A settled change stays settled. -/
theorem ChangeSettled.step {revision : ℕ} (hsettled : ChangeSettled peer s cls id revision)
    (h : CopyStep peer event s s' cls id) : ChangeSettled peer s' cls id revision := by
  obtain ⟨c, hc, hor⟩ := hsettled
  obtain ⟨c', hc', hinstance, hle⟩ := h.grows hc
  refine ⟨c', hc', ?_⟩
  rcases hor with hother | hrevision
  · exact Or.inl (by rw [hinstance]; exact hother)
  · exact Or.inr (hrevision.trans hle)

/-- A copy that a decision ended stays so, unless it is erased. -/
theorem Decided.step (hdecided : Decided s cls id) (h : CopyStep peer event s s' cls id) :
    Decided s' cls id ∨ event.Erases cls id := by
  obtain ⟨c, reason, hc, hmem, hreason⟩ := hdecided
  cases h with
  | kept hcopy hlapsed => exact Or.inl ⟨c, reason, by rw [hcopy, hc], hmem, hreason⟩
  | landed c' hcopy hpeer hheld hlanded =>
    exact absurd hreason ((hheld c hc).2.1 reason hmem)
  | retracted entry held hid hevent hretracts =>
    subst hid
    have hheld := hretracts.held
    rw [hc, Option.some_inj] at hheld
    subst hheld
    rcases hretracts.reason reason hreason with ⟨herasure, -⟩ | hlapsed
    · obtain ⟨now, evidence, rfl⟩ := hevent
      exact Or.inr ⟨entry, now, evidence, rfl, hretracts.recordClass, rfl, herasure⟩
    · rw [isLapsedCopy_eq_false hc ?_] at hlapsed
      · cases hlapsed
      · rw [hreason, ne_eq, Option.some_inj]
        rintro rfl
        exact absurd hmem (by decide)
  | ended held c' hcopy hcopy' hlive hended hinstance hrevision =>
    rw [hc, Option.some_inj] at hcopy
    subst hcopy
    rw [hlive] at hreason
    cases hreason

/-- A settled erasure stays settled, unless a change of its record lands. -/
theorem ErasureSettled.step (hsettled : ErasureSettled peer s cls id)
    (h : CopyStep peer event s s' cls id) : ErasureSettled peer s' cls id ∨ LandedSince s s' cls id := by
  cases h with
  | kept hcopy hlapsed =>
    refine Or.inl fun c' hc' => ?_
    rw [hcopy] at hc'
    exact hsettled c' hc'
  | landed c' hcopy hpeer hheld hlanded =>
    exact Or.inr ⟨c'.revision, hlanded, c', hcopy, le_refl _⟩
  | retracted entry c hid hevent hretracts =>
    subst hid
    refine Or.inl fun c' hc' => ?_
    rw [hretracts.copy, setCopy, if_pos ⟨rfl, rfl⟩, Option.some_inj] at hc'
    subst hc'
    rcases hsettled c hretracts.held with hother | herased
    · exact Or.inl hother
    · rcases hretracts.reason _ herased with ⟨-, hne⟩ | hlapsed
      · exact absurd rfl hne
      · rw [isLapsedCopy_eq_false hretracts.held (by rw [herased]; decide)] at hlapsed
        cases hlapsed
  | ended c c' hcopy hcopy' hlive hended hinstance hrevision =>
    refine Or.inl fun d hd => ?_
    rw [hcopy', Option.some_inj] at hd
    subst hd
    rcases hsettled c hcopy with hother | herased
    · exact Or.inl (by rw [hinstance]; exact hother)
    · rw [hlive] at herased
      cases herased

/-- A settled retraction stays settled, unless a change of its record lands.

**Proof sketch.** Ends here end live copies, and only a newer one is live.  A retraction that ends
the copy once more is an erasure, or finds a lapsed copy, which then stands as the settled
retraction ended it; it leaves the copy newer, ended and not lapsed, or as it was. -/
theorem RetractionSettled.step {reason : String} {revision : ℕ}
    (hsettled : RetractionSettled peer s cls id reason revision)
    (h : CopyStep peer event s s' cls id) :
    RetractionSettled peer s' cls id reason revision ∨ LandedSince s s' cls id := by
  cases h with
  | kept hcopy hlapsed =>
    refine Or.inl fun c' hc' => ?_
    rw [isLapsedCopy_congr hcopy hlapsed]
    rw [hcopy] at hc'
    exact hsettled c' hc'
  | landed c' hcopy hpeer hheld hlanded =>
    exact Or.inr ⟨c'.revision, hlanded, c', hcopy, le_refl _⟩
  | retracted entry c hid hevent hretracts =>
    subst hid
    have hcopy : s'.copy cls entry.recordId = some (retractedCopy c entry) := by
      rw [hretracts.copy, setCopy, if_pos ⟨rfl, rfl⟩]
    refine Or.inl fun c' hc' => ?_
    rw [hcopy, Option.some_inj] at hc'
    subst hc'
    have hends : ∀ {r : String}, entry.reason = r → r ≠ "expired" →
        (retractedCopy c entry).reason.isSome = true ∧
          isLapsedCopy s' cls entry.recordId = false := by
      intro r hr hne
      refine ⟨rfl, isLapsedCopy_eq_false hcopy ?_⟩
      simp only [retractedCopy, hr, ne_eq, Option.some_inj]
      exact hne
    rcases hsettled c hretracts.held with hother | hnewer | ⟨hended, hlapsed⟩ | ⟨hreason, hat⟩
    · exact Or.inl hother
    · exact Or.inr (Or.inl (lt_of_lt_of_le hnewer (le_retractedCopy c entry)))
    · obtain ⟨held, hheld⟩ := Option.isSome_iff_exists.mp hended
      rcases hretracts.reason held hheld with ⟨herasure, -⟩ | hlapsed'
      · exact Or.inr (Or.inr (Or.inl (hends herasure (by decide))))
      · rw [hlapsed] at hlapsed'
        cases hlapsed'
    · rcases hretracts.reason _ hreason with ⟨herasure, -⟩ | hlapsed
      · exact Or.inr (Or.inr (Or.inl (hends herasure (by decide))))
      · by_cases hexpired : entry.reason = "expired"
        · have hne : entry.reason ≠ erasureReason := by rw [hexpired]; decide
          obtain ⟨v, hv, hle⟩ := hretracts.revision hne
          obtain ⟨c', hc', -, hreason'⟩ := isLapsedCopy_iff.mp hlapsed
          rw [hretracts.held, Option.some_inj] at hc'
          subst hc'
          rw [hreason, Option.some_inj] at hreason'
          rw [retractedCopy_of_revision hne hv hle]
          rcases hle.eq_or_lt with heq | hlt
          · refine Or.inr (Or.inr (Or.inr ⟨?_, ?_⟩))
            · rw [hexpired, hreason']
            · exact heq.symm.trans hat
          · refine Or.inr (Or.inl ?_)
            rw [← hat]
            exact hlt
        · exact Or.inr (Or.inr (Or.inl (hends rfl hexpired)))
  | ended c c' hcopy hcopy' hlive hended hinstance hrevision =>
    refine Or.inl fun d hd => ?_
    rw [hcopy', Option.some_inj] at hd
    subst hd
    rcases hsettled c hcopy with hother | hnewer | ⟨hended', -⟩ | ⟨hreason, -⟩
    · exact Or.inl (by rw [hinstance]; exact hother)
    · exact Or.inr (Or.inl (lt_of_lt_of_le hnewer hrevision))
    · rw [hlive] at hended'
      cases hended'
    · rw [hlive] at hreason
      cases hreason

end Settled

/-! ## Runs -/

section Runs

variable {admission : Admission W registry peer} {event : InboxEvent W I} {s₁ s s' : Inbox I J}
  {cls : RevisionedClass} {id : I}

/-- What landed since an earlier state has landed since it in every later one. -/
theorem LandedSince.trans_step (hpre : ∃ new, s.landed = s₁.landed ++ new)
    (hstep : InboxSteps peer event s s') (h : LandedSince s₁ s cls id) : LandedSince s₁ s' cls id := by
  obtain ⟨u, hmem, c, hc, hle⟩ := h
  obtain ⟨new, hnew⟩ := hpre
  obtain ⟨new', hnew'⟩ := hstep.landed
  obtain ⟨c', hc', -, hle'⟩ := (hstep.copyStep cls id).grows hc
  refine ⟨u, ?_, c', hc', hle.trans hle'⟩
  rw [hnew, List.drop_left] at hmem
  rw [hnew', hnew, List.append_assoc, List.drop_left]
  exact List.mem_append_left _ hmem

/-- What lands in a step landed since every earlier state. -/
theorem LandedSince.of_step (hpre : ∃ new, s.landed = s₁.landed ++ new)
    (hstep : InboxSteps peer event s s') (h : LandedSince s s' cls id) : LandedSince s₁ s' cls id := by
  obtain ⟨u, hmem, hheld⟩ := h
  obtain ⟨new, hnew⟩ := hpre
  obtain ⟨new', hnew'⟩ := hstep.landed
  refine ⟨u, ?_, hheld⟩
  rw [hnew', List.drop_left] at hmem
  rw [hnew', hnew, List.append_assoc, List.drop_left]
  exact List.mem_append_right _ hmem

/-- **Settled entries over runs.** What every step preserves unless a change of a record lands, a
run preserves unless one landed since. -/
theorem settled_or_landed_of_run {P : Inbox I J → Prop}
    (hP : ∀ (event : InboxEvent W I) s s', CopyStep peer event s s' cls id → P s → P s' ∨ LandedSince s s' cls id)
    {events : List (InboxEvent W I)} {s₂ : Inbox I J} (hinv : LedgerInv s₁.db) (h₁ : P s₁)
    (hrun : Transition.run (inboxStep admission localInstanceId) s₁ events = some s₂) :
    LedgerInv s₂.db ∧ (P s₂ ∨ LandedSince s₁ s₂ cls id) := by
  have hall : LedgerInv s₂.db ∧ (∃ new, s₂.landed = s₁.landed ++ new) ∧
      (P s₂ ∨ LandedSince s₁ s₂ cls id) := by
    refine Transition.run_invariant (I := fun s => LedgerInv s.db ∧
      (∃ new, s.landed = s₁.landed ++ new) ∧ (P s ∨ LandedSince s₁ s cls id)) ?_
      ⟨hinv, ⟨[], (List.append_nil _).symm⟩, Or.inl h₁⟩ hrun
    rintro s event s' ⟨hs, hpre, hor⟩ hstep
    have hsteps := inboxStep_inboxSteps hs hstep
    refine ⟨hsteps.inv, ?_, ?_⟩
    · obtain ⟨new, hnew⟩ := hpre
      obtain ⟨new', hnew'⟩ := hsteps.landed
      exact ⟨new ++ new', by rw [hnew', hnew, List.append_assoc]⟩
    · rcases hor with hPs | hlanded
      · rcases hP event s s' (hsteps.copyStep cls id) hPs with hPs' | hlands
        · exact Or.inl hPs'
        · exact Or.inr (hlands.of_step hpre hsteps)
      · exact Or.inr (hlanded.trans_step hpre hsteps)
  exact ⟨hall.1, hall.2.2⟩

/-- Any run of the inbox keeps the ledger. -/
theorem ledgerInv_of_inboxRun {events : List (InboxEvent W I)} {s₂ : Inbox I J}
    (hinv : LedgerInv s₁.db)
    (hrun : Transition.run (inboxStep admission localInstanceId) s₁ events = some s₂) :
    LedgerInv s₂.db :=
  Transition.run_invariant (I := fun s => LedgerInv s.db)
    (fun _ _ _ hs hstep => (inboxStep_inboxSteps hs hstep).inv) hinv hrun

/-- A settled change stays settled over a run. -/
theorem ChangeSettled.run {revision : ℕ} {events : List (InboxEvent W I)} {s₂ : Inbox I J}
    (hinv : LedgerInv s₁.db) (h : ChangeSettled peer s₁ cls id revision)
    (hrun : Transition.run (inboxStep admission localInstanceId) s₁ events = some s₂) :
    ChangeSettled peer s₂ cls id revision := by
  refine (Transition.run_invariant
    (I := fun s => LedgerInv s.db ∧ ChangeSettled peer s cls id revision) ?_ ⟨hinv, h⟩ hrun).2
  rintro s event s' ⟨hs, hsettled⟩ hstep
  have hsteps := inboxStep_inboxSteps hs hstep
  exact ⟨hsteps.inv, hsettled.step (hsteps.copyStep cls id)⟩

/-- A copy that a decision ended stays so over a run, unless its erasure is delivered. -/
theorem decided_or_erased_of_run {events : List (InboxEvent W I)} {s₂ : Inbox I J}
    (hinv : LedgerInv s₁.db) (h : Decided s₁ cls id)
    (hrun : Transition.run (inboxStep admission localInstanceId) s₁ events = some s₂) :
    Decided s₂ cls id ∨ ∃ event ∈ events, event.Erases cls id := by
  induction events generalizing s₁ with
  | nil =>
    cases hrun
    exact Or.inl h
  | cons event rest ih =>
    obtain ⟨s, hstep, hrest⟩ := Transition.run_cons_eq_some.mp hrun
    have hsteps := inboxStep_inboxSteps hinv hstep
    rcases h.step (hsteps.copyStep cls id) with hdecided | herases
    · rcases ih hsteps.inv hdecided hrest with hdecided' | ⟨later, hmem, herases⟩
      · exact Or.inl hdecided'
      · exact Or.inr ⟨later, List.mem_cons_of_mem _ hmem, herases⟩
    · exact Or.inr ⟨event, List.mem_cons_self .., herases⟩

end Runs

/-! ## First deliveries -/

section First

variable {admission : Admission W registry peer} {s s' : Inbox I J} {now : Iso8601}
  {evidence : Option RecomputedEvidence} {outcome : InboxOutcome}

/-- A delivery settles its change, unless it is refused because the record was erased or a decision
ended the copy. -/
theorem landRecord_settles {wire : W} {record : AdmittedRecord I J} {sealed : SealedRecord I J}
    (h : landRecord admission localInstanceId s wire now evidence = .ok (s', outcome))
    (hadmits : admission.admitFederatedRecord now wire = .ok record)
    (hvalidate : registry.validate record.raw = .ok sealed) :
    isErased s.facts record.canonicalId now.instant peer = true ∨
      (Decided s sealed.head.cls sealed.head.id ∧ Decided s' sealed.head.cls sealed.head.id) ∨
        ChangeSettled peer s' sealed.head.cls sealed.head.id sealed.revision := by
  have hpeer := admission.admit_instance _ _ _ _ hadmits hvalidate
  rcases landRecord_cases h with ⟨hsame, -, -, hrefused⟩ | ⟨sealed', hlands⟩
  · rcases hrefused record sealed hadmits hvalidate with herased | ⟨row, hrow, hholds⟩
    · exact Or.inl herased
    · have hc : s.copy sealed.head.cls sealed.head.id = some (copyOf row) :=
        copy_eq_some.mpr ⟨row, hrow, rfl⟩
      have hc' := (hsame sealed.head.cls sealed.head.id).trans hc
      rcases hholds with hother | ⟨reason, hmem, hreason⟩ | hle
      · rw [hpeer] at hother
        exact Or.inr (Or.inr ⟨copyOf row, hc', Or.inl hother⟩)
      · exact Or.inr (Or.inl ⟨⟨copyOf row, reason, hc, hmem, hreason⟩,
          ⟨copyOf row, reason, hc', hmem, hreason⟩⟩)
      · exact Or.inr (Or.inr ⟨copyOf row, hc', Or.inr hle⟩)
  · obtain ⟨record', hadmits', hvalidate', -⟩ := hlands.admitted
    rw [hadmits, Except.ok.injEq] at hadmits'
    subst hadmits'
    rw [hvalidate, Except.ok.injEq] at hvalidate'
    subst hvalidate'
    refine Or.inr (Or.inr ⟨storedCopy sealed, ?_, Or.inr (le_refl _)⟩)
    rw [hlands.copy, setCopy, if_pos ⟨rfl, rfl⟩]

/-- A delivery settles its erasure. -/
theorem applyRetraction_settles_erasure {entry : Retraction I} {cls : RevisionedClass}
    (hinv : LedgerInv s.db) (h : applyRetraction registry peer s entry now = .ok (s', outcome))
    (hclass : entry.recordClass = some cls) (herasure : entry.reason = erasureReason) :
    ErasureSettled peer s' cls entry.recordId := by
  intro c hc
  rcases applyRetraction_cases hinv h with ⟨hsame, -, -, hidle⟩ | ⟨cls', held, hretracts⟩
  · rw [hsame] at hc
    rcases hidle cls c hclass hc with hother | ⟨hne, -⟩ | ⟨reason, hreason, hor, -⟩
    · exact Or.inl hother
    · exact absurd herasure hne
    · rw [hreason, hor.resolve_left (not_not.mpr herasure)]
      exact Or.inr rfl
  · have hcls' := hretracts.recordClass
    rw [hclass, Option.some_inj] at hcls'
    subst hcls'
    rw [hretracts.copy, setCopy, if_pos ⟨rfl, rfl⟩, Option.some_inj] at hc
    subst hc
    exact Or.inr (by rw [retractedCopy, herasure])

/-- A delivery settles its retraction. -/
theorem applyRetraction_settles {entry : Retraction I} {cls : RevisionedClass} {v : ℕ}
    (hinv : LedgerInv s.db) (h : applyRetraction registry peer s entry now = .ok (s', outcome))
    (hclass : entry.recordClass = some cls) (hreason : entry.reason ≠ erasureReason)
    (hv : entry.revision = some v) :
    RetractionSettled peer s' cls entry.recordId entry.reason v := by
  intro c hc
  rcases applyRetraction_cases hinv h with ⟨hsame, -, hlapsed, hidle⟩ | ⟨cls', held, hretracts⟩
  · rw [isLapsedCopy_congr (hsame _ _) (by rw [hlapsed])]
    rw [hsame] at hc
    rcases hidle cls c hclass hc with hother | ⟨-, w, hw, hlt⟩ | ⟨ended, hended, -, hnot⟩
    · exact Or.inl hother
    · rw [hv, Option.some_inj] at hw
      subst hw
      exact Or.inr (Or.inl hlt)
    · exact Or.inr (Or.inr (Or.inl ⟨by rw [hended]; rfl, hnot⟩))
  · have hcls' := hretracts.recordClass
    rw [hclass, Option.some_inj] at hcls'
    subst hcls'
    rw [hretracts.copy, setCopy, if_pos ⟨rfl, rfl⟩, Option.some_inj] at hc
    subst hc
    obtain ⟨w, hw, hle⟩ := hretracts.revision hreason
    rw [hv, Option.some_inj] at hw
    subst hw
    rw [retractedCopy_of_revision hreason hv hle]
    exact Or.inr (Or.inr (Or.inr ⟨rfl, rfl⟩))

/-- A settled erasure ends no copy. -/
theorem ErasureSettled.not_retracts {entry : Retraction I} {cls : RevisionedClass} {c : Copy I J}
    (h : ErasureSettled peer s cls entry.recordId) : ¬Retracts peer s s' entry cls c := by
  intro hretracts
  rcases h c hretracts.held with hother | herased
  · exact hother hretracts.instanceId
  · rcases hretracts.reason _ herased with ⟨-, hne⟩ | hlapsed
    · exact hne rfl
    · rw [isLapsedCopy_eq_false hretracts.held (by rw [herased]; decide)] at hlapsed
      cases hlapsed

/-- A settled retraction leaves the copies as they are: if it ends the copy once more, the copy
stands as it ended it. -/
theorem RetractionSettled.sameCopies {entry : Retraction I} {cls : RevisionedClass} {c : Copy I J}
    {v : ℕ} (h : RetractionSettled peer s cls entry.recordId entry.reason v)
    (hreason : entry.reason ≠ erasureReason) (hv : entry.revision = some v)
    (hretracts : Retracts peer s s' entry cls c) : SameCopies s s' := by
  obtain ⟨w, hw, hle⟩ := hretracts.revision hreason
  rw [hv, Option.some_inj] at hw
  subst hw
  rcases h c hretracts.held with hother | hnewer | ⟨hended, hnot⟩ | ⟨hsame, hat⟩
  · exact absurd hretracts.instanceId hother
  · exact absurd hnewer (not_lt.mpr hle)
  · obtain ⟨held, hheld⟩ := Option.isSome_iff_exists.mp hended
    rcases hretracts.reason held hheld with ⟨herased, -⟩ | hlapsed
    · exact absurd herased hreason
    · rw [hnot] at hlapsed
      cases hlapsed
  · intro cls' x
    rw [hretracts.copy, setCopy]
    split_ifs with hx
    · obtain ⟨rfl, rfl⟩ := hx
      rw [hretracts.held, retractedCopy_of_revision hreason hv hle, ← hat, ← hsame]
    · rfl

end First

/-! ## Delivering again -/

/-- The entries that may act when they are delivered again: a change that was refused because its
record was erased, and is not any more; one that was refused because a decision had ended its copy,
since when the record was erased; one whose copy ended at its revision and can be restored; and a
retraction since whose delivery a change of its record landed, at no later revision than the
retraction's unless that is an erasure. -/
def ActsAgain (admission : Admission W registry peer) (s₀ s₁ s₂ : Inbox I J)
    (between : List (InboxEvent W I)) (now₀ now : Iso8601) : OutboxItem W I → Prop
  | .change wire => ∃ record sealed, admission.admitFederatedRecord now wire = .ok record ∧
      registry.validate record.raw = .ok sealed ∧
        ((isErased s₂.facts record.canonicalId now.instant peer = false ∧
            ∃ record₀, admission.admitFederatedRecord now₀ wire = .ok record₀ ∧
              isErased s₀.facts record₀.canonicalId now₀.instant peer = true) ∨
          (Decided s₀ sealed.head.cls sealed.head.id ∧
            ∃ event ∈ between, event.Erases sealed.head.cls sealed.head.id) ∨
          ∃ row, (s₂.db.rows sealed.head.cls).get sealed.head.id = some row ∧
            Restorable now.instant row sealed)
  | .retraction entry => ∃ cls revision, entry.recordClass = some cls ∧
      (cls, entry.recordId, revision) ∈ s₂.landed.drop s₁.landed.length ∧
        (entry.reason ≠ erasureReason → ∃ v, entry.revision = some v ∧ revision ≤ v)

section Again

variable {admission : Admission W registry peer} {s₀ s₁ s₂ s₃ : Inbox I J}
  {between : List (InboxEvent W I)} {now₀ now : Iso8601}
  {evidence₀ evidence : Option RecomputedEvidence} {outcome₀ outcome : InboxOutcome}

/-- A change delivered again leaves the copies as they are, unless it acts again. -/
theorem redelivery_of_change {wire : W} (hinv : LedgerInv s₀.db)
    (hfirst : landRecord admission localInstanceId s₀ wire now₀ evidence₀ = .ok (s₁, outcome₀))
    (hbetween : Transition.run (inboxStep admission localInstanceId) s₁ between = some s₂)
    (hagain : landRecord admission localInstanceId s₂ wire now evidence = .ok (s₃, outcome)) :
    SameCopies s₂ s₃ ∨ ActsAgain admission s₀ s₁ s₂ between now₀ now (.change wire) := by
  rcases landRecord_cases hagain with ⟨hsame, -⟩ | ⟨sealed, hlands⟩
  · exact Or.inl hsame
  · obtain ⟨record, hadmits, hvalidate, herased⟩ := hlands.admitted
    have hpeer := admission.admit_instance _ _ _ _ hadmits hvalidate
    refine Or.inr ⟨record, sealed, hadmits, hvalidate, ?_⟩
    -- The first delivery read the same record.
    obtain ⟨record₀, sealed₀, hadmits₀, hvalidate₀, hcls, hid, hrevision⟩ :=
      admission.admit_clock now now₀ wire record sealed hadmits hvalidate
    have hinv₁ := landRecord_ledgerInv hinv hfirst
    have hsettles := landRecord_settles hfirst hadmits₀ hvalidate₀
    rw [hcls, hid, hrevision] at hsettles
    rcases hsettles with herased₀ | ⟨hdecided₀, hdecided₁⟩ | hsettled
    · exact Or.inl ⟨herased, record₀, hadmits₀, herased₀⟩
    · rcases decided_or_erased_of_run hinv₁ hdecided₁ hbetween with hdecided | herases
      · obtain ⟨c, reason, hc, hmem, hreason⟩ := hdecided
        obtain ⟨row, hrow, rfl⟩ := copy_eq_some.mp hc
        exact absurd hreason ((hlands.writesOver row hrow).2.1 reason hmem)
      · exact Or.inr (Or.inl ⟨hdecided₀, herases⟩)
    · obtain ⟨c, hc, hor⟩ := hsettled.run hinv₁ hbetween
      obtain ⟨row, hrow, rfl⟩ := copy_eq_some.mp hc
      obtain ⟨hinstance, -, hover⟩ := hlands.writesOver row hrow
      rcases hor with hother | hle
      · exact absurd (hinstance.trans hpeer) hother
      · rcases hover with hlt | hrestorable
        · exact absurd hlt (not_lt.mpr hle)
        · exact Or.inr (Or.inr ⟨row, hrow, hrestorable⟩)

/-- A retraction delivered again leaves the copies as they are, unless it acts again. -/
theorem redelivery_of_retraction {entry : Retraction I} (hinv : LedgerInv s₀.db)
    (hfirst : applyRetraction registry peer s₀ entry now₀ = .ok (s₁, outcome₀))
    (hbetween : Transition.run (inboxStep admission localInstanceId) s₁ between = some s₂)
    (hagain : applyRetraction registry peer s₂ entry now = .ok (s₃, outcome)) :
    SameCopies s₂ s₃ ∨ ActsAgain admission s₀ s₁ s₂ between now₀ now (.retraction entry) := by
  have hinv₁ := applyRetraction_ledgerInv hinv hfirst
  have hinv₂ := ledgerInv_of_inboxRun hinv₁ hbetween
  rcases applyRetraction_cases hinv₂ hagain with ⟨hsame, -⟩ | ⟨cls, c, hretracts⟩
  · exact Or.inl hsame
  · have hclass := hretracts.recordClass
    have hlanded : LandedSince s₁ s₂ cls entry.recordId →
        ActsAgain admission s₀ s₁ s₂ between now₀ now (.retraction entry) := by
      rintro ⟨u, hmem, c', hc', hle⟩
      rw [hretracts.held, Option.some_inj] at hc'
      subst hc'
      refine ⟨cls, u, hclass, hmem, fun hne => ?_⟩
      obtain ⟨v, hv, hcv⟩ := hretracts.revision hne
      exact ⟨v, hv, hle.trans hcv⟩
    by_cases herasure : entry.reason = erasureReason
    · have hsettled₁ := applyRetraction_settles_erasure hinv hfirst hclass herasure
      rcases (settled_or_landed_of_run (fun _ _ _ hstep hP => ErasureSettled.step hP hstep) hinv₁
        hsettled₁ hbetween).2 with hsettled | hland
      · exact absurd hretracts hsettled.not_retracts
      · exact Or.inr (hlanded hland)
    · obtain ⟨v, hv, -⟩ := hretracts.revision herasure
      have hsettled₁ := applyRetraction_settles hinv hfirst hclass herasure hv
      rcases (settled_or_landed_of_run (fun _ _ _ hstep hP => RetractionSettled.step hP hstep)
        hinv₁ hsettled₁ hbetween).2 with hsettled | hland
      · exact Or.inl (hsettled.sameCopies herasure hv hretracts)
      · exact Or.inr (hlanded hland)

end Again

/-! ### A report that is withdrawn and sent again -/

/-- The admission of plain records: of those that are known, the peer's own. -/
def admitPlain (known : List (SealedRecord String String)) (peer : String) (wire : String) :
    Except String (AdmittedRecord String String) :=
  match known.find? fun r => decide (r.statement.body = wire) with
  | none => .error "unknown"
  | some r =>
    match validatePlain known r.raw with
    | .error _ => .error "invalid"
    | .ok sealed =>
      if sealed.head.provenance.instanceId = peer then .ok ⟨r.raw, sealed.head.canonicalId, false⟩
      else .error "relayed"

/-- What is admitted and valid is the peer's own. -/
theorem instance_of_admitPlain {known : List (SealedRecord String String)} {peer wire : String}
    {record : AdmittedRecord String String} {sealed : SealedRecord String String}
    (hadmits : admitPlain known peer wire = .ok record)
    (hvalidate : validatePlain known record.raw = .ok sealed) :
    sealed.head.provenance.instanceId = peer := by
  unfold admitPlain at hadmits
  split at hadmits
  · cases hadmits
  · split at hadmits
    · cases hadmits
    · rename_i sealed' hsealed'
      split_ifs at hadmits with hpeer
      cases hadmits
      rw [hsealed', Except.ok.injEq] at hvalidate
      rw [← hvalidate]
      exact hpeer

/-- The admission of plain records, each with its receipt. -/
def plainAdmission (known : List (SealedRecord String String)) (peer : String) :
    Admission String (plainRegistry known) peer where
  admitFederatedRecord _ wire := admitPlain known peer wire
  admit_instance _ _ _ _ hadmits hvalidate := instance_of_admitPlain hadmits hvalidate
  admit_clock _ _ _ record sealed hadmits hvalidate :=
    ⟨record, sealed, hadmits, hvalidate, rfl, rfl, rfl⟩

/-- The instant of the sample deliveries. -/
def deliveryNow : Iso8601 := ⟨"1970-01-01T00:00:00Z", .epoch⟩

/-- A peer's record at its first revision, as it is received. -/
def receivedRecord : SealedRecord String String :=
  let record := plainRecord "x" "feed" "poll" "peer" 1 deliveryNow "closed"
  { record with head := { record.head with
      provenance := { record.head.provenance with originChain := some ["peer"] } } }

/-- The admission of that record. -/
def sampleAdmission : Admission String (plainRegistry [receivedRecord]) "peer" :=
  plainAdmission [receivedRecord] "peer"

/-- An inbox that holds nothing. -/
def Inbox.empty (I J : Type) : Inbox I J := ⟨.empty I J, .empty, .empty, []⟩

/-- The delivery of the record. -/
def deliverRecord : InboxEvent String String := .deliver (.change "closed") deliveryNow none

/-- The delivery of its withdrawal, at the revision it stays at. -/
def deliverWithdrawal : InboxEvent String String :=
  .deliver (.retraction ⟨some .feature, "x", some "x", "withdrawn", some 1, fun _ => rfl⟩)
    deliveryNow none

/-- The inbox after sample events. -/
def inboxAfter (events : List (InboxEvent String String)) : Inbox String String :=
  (Transition.run (inboxStep sampleAdmission "here") (.empty _ _) events).getD (.empty _ _)

end OpenConditions.Federation

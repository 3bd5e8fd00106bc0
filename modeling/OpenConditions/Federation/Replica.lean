import OpenConditions.Storage.WriteRecords

set_option relaxedAutoImplicit false
set_option autoImplicit false

/-!
# What a peer's journal makes of a copy

One record of a peer, as its journal tells it: the changes with their revisions and contents and the
retractions with theirs.  A copy elsewhere is delivered these entries in any order and any number of
times, and then once in the order of the journal.

## Main definitions

* `JournalEntry` — an entry of the record.
* `Held` — what is held of the record.
* `Delivers`, `DeliversAll` — what a delivery may do to it, and deliveries in a row.
* `Told` — what is held was told by an entry.

## Main results

* `Told.step` — whatever is delivered, what is held was told.
* `DeliversAll.converges` — after the deliveries in the order of the journal, the copy is live as the
  last change tells it, or ended as a retraction after it tells.
-/

namespace OpenConditions.Federation

open OpenConditions.Storage

variable {C : Type}

/-! ## Entries and copies -/

/-- An entry of a peer's journal about one record. -/
inductive JournalEntry (C : Type) where
  | change (revision : ℕ) (content : C)
  | retraction (reason : String) (revision : Option ℕ)

/-- The revision an entry tells. -/
def JournalEntry.revision : JournalEntry C → Option ℕ
  | .change revision _ => some revision
  | .retraction _ revision => revision

/-- The entry ends the record. -/
def JournalEntry.IsRetraction : JournalEntry C → Prop
  | .change _ _ => False
  | .retraction _ _ => True

/-- What is held of a record: its revision, how it ended, if it did, and its content. -/
structure Held (C : Type) where
  revision : ℕ
  reason : Option String
  content : C

/-- A decision ended what is held. -/
def Held.Decided (c : Held C) : Prop := ∃ reason ∈ decidedTombstoneReasons, c.reason = some reason

/-- What a delivery may make of what is held, where `fenced` says that changes may be refused. -/
inductive Delivers (fenced : Prop) : JournalEntry C → Option (Held C) → Option (Held C) → Prop
  /-- The change is held from now on. -/
  | lands {v : ℕ} {x : C} {h : Option (Held C)} : Delivers fenced (.change v x) h (some ⟨v, none, x⟩)
  /-- The change is refused. -/
  | refused {v : ℕ} {x : C} {h : Option (Held C)} (hfenced : fenced) :
    Delivers fenced (.change v x) h h
  /-- What is held is no older than the change, and not withdrawn at its revision, or was decided. -/
  | holdsOut {v : ℕ} {x : C} {c : Held C}
      (hout : c.Decided ∨ v < c.revision ∨ (v = c.revision ∧ c.reason ≠ some "withdrawn")) :
    Delivers fenced (.change v x) (some c) (some c)
  /-- The retraction ends what is held. -/
  | ends {reason : String} {w : Option ℕ} {c d : Held C} (hreason : d.reason = some reason)
      (hrevision : reason ≠ erasureReason → w = some d.revision) :
    Delivers fenced (.retraction reason w) (some c) (some d)
  /-- Nothing is held that the retraction could end. -/
  | absent {reason : String} {w : Option ℕ} : Delivers fenced (.retraction reason w) none none
  /-- What is held has ended already, or is newer. -/
  | idle {reason : String} {w : Option ℕ} {c : Held C}
      (hidle : c.reason.isSome = true ∨
        (reason ≠ erasureReason ∧ ∃ v, w = some v ∧ v < c.revision)) :
    Delivers fenced (.retraction reason w) (some c) (some c)

/-- What a delivery may do that may be about another record. -/
def DeliversTold (fenced : Prop) :
    Option (JournalEntry C) → Option (Held C) → Option (Held C) → Prop
  | none, h, h' => h' = h
  | some e, h, h' => Delivers fenced e h h'

/-- Deliveries in a row. -/
inductive DeliversAll (fenced : Prop) :
    List (JournalEntry C) → Option (Held C) → Option (Held C) → Prop
  | nil {h : Option (Held C)} : DeliversAll fenced [] h h
  | cons {e : JournalEntry C} {entries : List (JournalEntry C)} {h h' h'' : Option (Held C)}
      (hfirst : Delivers fenced e h h') (hrest : DeliversAll fenced entries h' h'') :
    DeliversAll fenced (e :: entries) h h''

/-- What is held was told: a live copy by a change, an ended one by a retraction. -/
def Told (entries : List (JournalEntry C)) (h : Option (Held C)) : Prop :=
  ∀ c, h = some c →
    (c.reason = none → .change c.revision c.content ∈ entries) ∧
      ∀ reason, c.reason = some reason →
        ∃ w, .retraction reason w ∈ entries ∧ (reason ≠ erasureReason → w = some c.revision)

/-- The entries of a journal about one record: the revisions never fall, and the changes of one
revision have one content. -/
structure Honest (entries : List (JournalEntry C)) : Prop where
  sorted : entries.Pairwise fun a b => ∀ v ∈ a.revision, ∀ w ∈ b.revision, v ≤ w
  sameContent : ∀ v x y, .change v x ∈ entries → .change v y ∈ entries → x = y

/-! ## Any deliveries -/

section Told

variable {fenced : Prop} {e : JournalEntry C} {entries rest : List (JournalEntry C)}
  {h h' : Option (Held C)}

/-- Nothing held was told. -/
theorem told_none : Told entries (none : Option (Held C)) := fun _ hc => by cases hc

/-- **Whatever is delivered, what is held was told.** -/
theorem Told.step (ht : Told entries h) (he : e ∈ entries) (hd : Delivers fenced e h h') :
    Told entries h' := by
  cases hd with
  | lands =>
    rintro c hc
    obtain rfl := Option.some.inj hc
    exact ⟨fun _ => he, fun reason hreason => by cases hreason⟩
  | refused hfenced => exact ht
  | holdsOut hout => exact ht
  | ends hreason hrevision =>
    rintro c hc
    obtain rfl := Option.some.inj hc
    refine ⟨fun hnone => absurd (hreason.symm.trans hnone) (by simp), fun reason' hreason' => ?_⟩
    rw [hreason] at hreason'
    obtain rfl := Option.some.inj hreason'
    exact ⟨_, he, hrevision⟩
  | absent => exact ht
  | idle hidle => exact ht

/-- Whatever is delivered in a row, what is held was told. -/
theorem Told.run (ht : Told entries h) (hsub : ∀ e ∈ rest, e ∈ entries)
    (hd : DeliversAll fenced rest h h') : Told entries h' := by
  induction hd with
  | nil => exact ht
  | cons hfirst hrest ih =>
    exact ih (ht.step (hsub _ List.mem_cons_self) hfirst)
      fun e he => hsub e (List.mem_cons_of_mem _ he)

/-- Deliveries in a row are those of its two parts. -/
theorem deliversAll_append {before : List (JournalEntry C)} :
    DeliversAll fenced (before ++ rest) h h' ↔
      ∃ m, DeliversAll fenced before h m ∧ DeliversAll fenced rest m h' := by
  constructor
  · intro hd
    induction before generalizing h with
    | nil => exact ⟨h, .nil, hd⟩
    | cons e before ih =>
      cases hd with
      | cons hfirst hrest =>
        obtain ⟨m, hbefore, hrest'⟩ := ih hrest
        exact ⟨m, .cons hfirst hbefore, hrest'⟩
  · rintro ⟨m, hbefore, hrest⟩
    induction hbefore with
    | nil => exact hrest
    | cons hfirst _ ih => exact .cons hfirst (ih hrest)

end Told

/-! ## The deliveries of the journal -/

section Converges

variable {fenced : Prop} {before after : List (JournalEntry C)} {v : ℕ} {x : C}
  {h h' : Option (Held C)}

/-- Nothing keeps the last change of a record from being held: the record is not rejected or
superseded before it nor ever erased, and ends at its revision by withdrawals only. -/
structure Unhindered (before : List (JournalEntry C)) (v : ℕ) (x : C)
    (after : List (JournalEntry C)) : Prop where
  last : ∀ e ∈ after, e.IsRetraction
  undecided : ∀ reason ∈ decidedTombstoneReasons, ∀ w, .retraction reason w ∉ before
  notErased : ∀ w, .retraction erasureReason w ∉ before ++ .change v x :: after
  withdrawn : ∀ reason, .retraction reason (some v) ∈ before ++ .change v x :: after →
    reason = "withdrawn"

/-- What is held from the last change on: what it tells, or as ended what a retraction after it
tells. -/
def AfterLast (v : ℕ) (x : C) (after : List (JournalEntry C)) (c : Held C) : Prop :=
  (c.reason = none ∧ c.revision = v ∧ c.content = x) ∨
    ∃ reason, c.reason = some reason ∧ .retraction reason (some c.revision) ∈ after

/-- An entry before or after the last change, by its revision. -/
theorem Honest.mem_cases (hh : Honest (before ++ .change v x :: after)) {e : JournalEntry C}
    (he : e ∈ before ++ .change v x :: after) :
    (e ∈ before ∧ ∀ w ∈ e.revision, w ≤ v) ∨ e = .change v x ∨
      (e ∈ after ∧ ∀ w ∈ e.revision, v ≤ w) := by
  obtain ⟨-, hlast, hbetween⟩ := List.pairwise_append.mp hh.sorted
  rcases List.mem_append.mp he with he | he
  · exact Or.inl ⟨he, fun w hw => hbetween e he _ List.mem_cons_self w hw v rfl⟩
  · rcases List.mem_cons.mp he with rfl | he
    · exact Or.inr (Or.inl rfl)
    · exact Or.inr (Or.inr ⟨he, fun w hw => (List.pairwise_cons.mp hlast).1 e he v rfl w hw⟩)

/-- **The last change** is held when it is delivered, or a retraction after it ended the copy. -/
theorem Delivers.last (hh : Honest (before ++ .change v x :: after))
    (hu : Unhindered before v x after) (ht : Told (before ++ .change v x :: after) h)
    (hd : Delivers False (.change v x) h h') : ∃ c, h' = some c ∧ AfterLast v x after c := by
  cases hd with
  | lands => exact ⟨_, rfl, Or.inl ⟨rfl, rfl, rfl⟩⟩
  | refused hfenced => exact hfenced.elim
  | holdsOut hout =>
    rename_i c
    obtain ⟨hlive, hover⟩ := ht c rfl
    refine ⟨c, rfl, ?_⟩
    cases hreason : c.reason with
    | none =>
      -- A live copy is at the revision of a change, so at no later one than the last.
      have hle : c.revision ≤ v := by
        rcases hh.mem_cases (hlive hreason) with ⟨-, hle⟩ | heq | ⟨hafter, -⟩
        · exact hle _ rfl
        · exact (JournalEntry.change.inj heq).1.le
        · exact (hu.last _ hafter).elim
      have hrevision : c.revision = v := by
        rcases hout with ⟨reason, -, hdecided⟩ | hlt | ⟨heq, -⟩
        · rw [hreason] at hdecided
          cases hdecided
        · omega
        · exact heq.symm
      refine Or.inl ⟨hreason, hrevision, ?_⟩
      exact hh.sameContent v _ _ (hrevision ▸ hlive hreason)
        (List.mem_append_right _ List.mem_cons_self)
    | some reason =>
      obtain ⟨w, hw, hrevision⟩ := hover reason hreason
      have herasure : reason ≠ erasureReason := by
        rintro rfl
        exact hu.notErased w hw
      obtain rfl := hrevision herasure
      refine Or.inr ⟨reason, hreason, ?_⟩
      rcases hh.mem_cases hw with ⟨hbefore, hle⟩ | heq | ⟨hafter, -⟩
      · exfalso
        rcases hout with ⟨reason', hmem, hdecided⟩ | hlt | ⟨heq, hne⟩
        · rw [hreason] at hdecided
          obtain rfl := Option.some.inj hdecided
          exact hu.undecided reason hmem _ hbefore
        · exact absurd (hle _ rfl) (by omega)
        · rw [← heq] at hw
          exact hne (by rw [hreason, hu.withdrawn reason hw])
      · cases heq
      · exact hafter

/-- From the last change on, a retraction after it ends the copy if nothing did before. -/
theorem Delivers.following {e : JournalEntry C} {c : Held C}
    (hh : Honest (before ++ .change v x :: after)) (hu : Unhindered before v x after)
    (he : e ∈ after) (hc : AfterLast v x after c) (hd : Delivers fenced e (some c) h') :
    ∃ d reason, h' = some d ∧ d.reason = some reason ∧
      .retraction reason (some d.revision) ∈ after := by
  cases hd with
  | lands => exact (hu.last _ he).elim
  | refused hfenced => exact (hu.last _ he).elim
  | holdsOut hout => exact (hu.last _ he).elim
  | ends hreason hrevision =>
    rename_i reason w d
    have herasure : reason ≠ erasureReason := by
      rintro rfl
      exact hu.notErased w (List.mem_append_right _ (List.mem_cons_of_mem _ he))
    exact ⟨d, reason, rfl, hreason, hrevision herasure ▸ he⟩
  | idle hidle =>
    rcases hc with ⟨hlive, hrevision, -⟩ | ⟨reason, hreason, hmem⟩
    · rcases hidle with hsome | ⟨-, w, rfl, hlt⟩
      · rw [hlive] at hsome
        cases hsome
      · rcases hh.mem_cases (List.mem_append_right _ (List.mem_cons_of_mem _ he)) with
          ⟨-, -⟩ | heq | ⟨-, hle⟩
        · have hlast := (List.pairwise_append.mp hh.sorted).2.1
          exact absurd ((List.pairwise_cons.mp hlast).1 _ he v rfl w rfl) (by omega)
        · cases heq
        · exact absurd (hle w rfl) (by omega)
    · exact ⟨c, reason, rfl, hreason, hmem⟩

/-- **The copy converges.** After the deliveries of a journal in its order the copy is live as the
last change tells it, or, where retractions follow, ended as one of them tells. -/
theorem DeliversAll.converges (hh : Honest (before ++ .change v x :: after))
    (hu : Unhindered before v x after) (ht : Told (before ++ .change v x :: after) h)
    (hd : DeliversAll False (before ++ .change v x :: after) h h') :
    ∃ c, h' = some c ∧ (after = [] → c.reason = none ∧ c.revision = v ∧ c.content = x) ∧
      (after ≠ [] → ∃ reason, c.reason = some reason ∧
        .retraction reason (some c.revision) ∈ after) := by
  obtain ⟨m, hbefore, hd⟩ := Iff.mp deliversAll_append hd
  cases hd with
  | cons hlast hafter =>
    have htm : Told (before ++ .change v x :: after) m :=
      ht.run (fun e he => List.mem_append_left _ he) hbefore
    obtain ⟨c, rfl, hc⟩ := hlast.last hh hu htm
    have hrun : ∀ {rest : List (JournalEntry C)} {c : Held C} {k : Option (Held C)},
        (∀ e ∈ rest, e ∈ after) → AfterLast v x after c → DeliversAll False rest (some c) k →
        ∃ d, k = some d ∧ AfterLast v x after d ∧ (rest ≠ [] → ∃ reason, d.reason = some reason ∧
          .retraction reason (some d.revision) ∈ after) := by
      intro rest
      induction rest with
      | nil =>
        intro c k _ hc hd
        cases hd
        exact ⟨c, rfl, hc, fun hne => absurd rfl hne⟩
      | cons e rest ih =>
        intro c k hsub hc hd
        cases hd with
        | cons hfirst hrest =>
          obtain ⟨d, reason, rfl, hreason, hmem⟩ :=
            hfirst.following hh hu (hsub e List.mem_cons_self) hc
          obtain ⟨d', rfl, hd', hend⟩ := ih (fun e' he' => hsub e' (List.mem_cons_of_mem _ he'))
            (Or.inr ⟨reason, hreason, hmem⟩) hrest
          refine ⟨d', rfl, hd', fun _ => ?_⟩
          cases rest with
          | nil =>
            cases hrest
            exact ⟨reason, hreason, hmem⟩
          | cons e' rest => exact hend (List.cons_ne_nil _ _)
    obtain ⟨d, rfl, hd, hend⟩ := hrun (fun e he => he) hc hafter
    refine ⟨d, rfl, ?_, hend⟩
    rintro rfl
    rcases hd with hlive | ⟨reason, -, hmem⟩
    · exact hlive
    · exact absurd hmem List.not_mem_nil

/-- **A record that is retracted last is not live.** -/
theorem DeliversAll.ended {reason : String} {w : Option ℕ}
    (hh : Honest (before ++ [.retraction reason w]))
    (ht : Told (before ++ [.retraction reason w]) h)
    (hd : DeliversAll fenced (before ++ [.retraction reason w]) h h') :
    ∀ c, h' = some c → c.reason ≠ none := by
  obtain ⟨m, hbefore, hd⟩ := Iff.mp deliversAll_append hd
  cases hd with
  | cons hlast hnil =>
    cases hnil
    have htm : Told (before ++ [.retraction reason w]) m :=
      ht.run (fun e he => List.mem_append_left _ he) hbefore
    intro c hc hlive
    cases hlast with
    | ends hreason hrevision =>
      obtain rfl := Option.some.inj hc
      rw [hreason] at hlive
      cases hlive
    | absent => cases hc
    | idle hidle =>
      obtain rfl := Option.some.inj hc
      rcases hidle with hsome | ⟨-, u, rfl, hlt⟩
      · rw [hlive] at hsome
        cases hsome
      · rcases List.mem_append.mp ((htm _ rfl).1 hlive) with hmem | hmem
        · have hle := (List.pairwise_append.mp hh.sorted).2.2 _ hmem _ List.mem_cons_self _ rfl u rfl
          omega
        · cases List.mem_singleton.mp hmem

end Converges

end OpenConditions.Federation

import OpenConditions.Contrib.Corroboration
import OpenConditions.Lib.Heads

set_option relaxedAutoImplicit false
set_option autoImplicit false

/-!
# One live head for each cluster

Whatever pairs of reports are corroborated in whatever order, the reports that the merges connect
keep one live head: the earliest of them, whose ledger names the others and credits their witnesses.

## Main definitions

* `Landed` — reports that have landed and were not merged yet.
* `Corroborated` — what every sequence of calls keeps.
* `LiveHead` — a report is the live head of the cluster of another.

## Main results

* `Corroborated.corroborate` — one call keeps it.
* `corroboration_liveHead` — every report has one live head, and its survivor is that.
-/

namespace OpenConditions.Contrib

open OpenConditions.Core Heads

/-! ## Sequences of calls -/

/-- A call on two reports. -/
structure Call where
  idA : String
  idB : String
  now : Instant

variable (crowdRulesFor : StoredSituation → Option CrowdRules)

/-- The state after a call; one that throws is rolled back. -/
def corroborate (s : Crowd) (c : Call) : Crowd :=
  match applyCorroboration crowdRulesFor s c.idA c.idB c.now with
  | .ok s' => s'
  | .error _ => s

/-- The merge that a call makes: the survivor, then the merged report. -/
def mergeOf (s : Crowd) (c : Call) : List (String × String) :=
  match applyCorroboration crowdRulesFor s c.idA c.idB c.now with
  | .error _ => []
  | .ok _ =>
    match s.situations.get c.idA, s.situations.get c.idB with
    | some a, some b =>
      if a.tombstoneReason ≠ none ∨ b.tombstoneReason ≠ none then []
      else if isEarlier a b then [(a.id, b.id)] else [(b.id, a.id)]
    | _, _ => []

/-- The state after some calls. -/
def corroborateAll (s : Crowd) (calls : List Call) : Crowd :=
  calls.foldl (corroborate crowdRulesFor) s

/-- The merges that some calls make. -/
def mergesOf : Crowd → List Call → List (String × String)
  | _, [] => []
  | s, c :: calls => mergeOf crowdRulesFor s c ++ mergesOf (corroborate crowdRulesFor s c) calls

variable {crowdRulesFor} {s s' : Crowd}

/-! ## The stable order -/

/-- What the stable order compares. -/
def StoredSituation.rank (r : StoredSituation) : WithTop Instant ×ₗ List ℕ :=
  toLex (startOf r, Utf16.codeUnits r.id)

/-- The stable order is that of starts and ids. -/
theorem isEarlier_iff {a b : StoredSituation} : isEarlier a b = true ↔ a.rank < b.rank := by
  unfold isEarlier StoredSituation.rank
  rw [Prod.Lex.toLex_lt_toLex]
  by_cases h : startOf a = startOf b
  · simp [h, Utf16.lt]
  · simp [h]

/-- Of two reports one is earlier. -/
theorem isEarlier_of_not {a b : StoredSituation} (hid : a.id ≠ b.id) (h : ¬isEarlier a b = true) :
    isEarlier b a = true := by
  rw [isEarlier_iff] at h ⊢
  refine lt_of_le_of_ne (not_lt.mp h) fun heq => hid ?_
  exact (Utf16.codeUnits_injective (Prod.ext_iff.mp (toLex.injective heq)).2).symm

/-! ## What a merge does -/

/-- Rows are appended to the ledger. -/
theorem mem_append {rows : List (ReportEvidenceRow × Option RowDetails)} {id : String}
    {r : LedgerRow} (h : r ∈ (s.append rows id).ledger) :
    r ∈ s.ledger ∨ ∃ row details i, (row, details) ∈ rows ∧ r = ⟨id, { row with id := i }, details⟩ := by
  induction rows generalizing s with
  | nil => exact Or.inl h
  | cons entry rows ih =>
    obtain ⟨row, details⟩ := entry
    rcases ih h with hs | ⟨row', details', i, hrow, heq⟩
    · rcases List.mem_append.mp hs with hs | hs
      · exact Or.inl hs
      · exact Or.inr ⟨row, details, s.nextId, List.mem_cons_self .., List.mem_singleton.mp hs⟩
    · exact Or.inr ⟨row', details', i, List.mem_cons_of_mem _ hrow, heq⟩

/-- The ledger stays. -/
theorem ledger_append {rows : List (ReportEvidenceRow × Option RowDetails)} {id : String}
    {r : LedgerRow} (h : r ∈ s.ledger) : r ∈ (s.append rows id).ledger := by
  induction rows generalizing s with
  | nil => exact h
  | cons entry rows ih => exact ih (List.mem_append_left _ h)

/-- Each row is appended. -/
theorem mem_append_of_mem {rows : List (ReportEvidenceRow × Option RowDetails)} {id : String}
    {row : ReportEvidenceRow} {details : Option RowDetails} (h : (row, details) ∈ rows) :
    ∃ i, ⟨id, { row with id := i }, details⟩ ∈ (s.append rows id).ledger := by
  induction rows generalizing s with
  | nil => cases h
  | cons entry rows ih =>
    rcases List.mem_cons.mp h with heq | h
    · subst heq
      refine ⟨s.nextId, ?_⟩
      rw [Crowd.append]
      exact ledger_append (List.mem_append_right _ (List.mem_singleton_self _))
    · exact ih h

/-- Appending rows leaves the situations. -/
@[simp] theorem situations_append {rows : List (ReportEvidenceRow × Option RowDetails)}
    {id : String} : (s.append rows id).situations = s.situations := by
  induction rows generalizing s with
  | nil => rfl
  | cons entry rows ih => exact ih

/-- The parts of a report that no merge changes. -/
structure StoredSituation.Same (r r' : StoredSituation) : Prop where
  id : r.id = r'.id
  start : r.start = r'.start
  keyId : r.keyId = r'.keyId

/-- A report is the same as itself. -/
theorem StoredSituation.Same.refl (r : StoredSituation) : r.Same r := ⟨rfl, rfl, rfl⟩

/-- Being the same is transitive. -/
theorem StoredSituation.Same.trans {r r' r'' : StoredSituation} (h : r.Same r') (h' : r'.Same r'') :
    r.Same r'' := ⟨h.id.trans h'.id, h.start.trans h'.start, h.keyId.trans h'.keyId⟩

/-- The same reports stand in the same order. -/
theorem StoredSituation.Same.rank {r r' : StoredSituation} (h : r.Same r') : r.rank = r'.rank := by
  unfold StoredSituation.rank startOf
  rw [h.id, h.start]

/-- An evaluation changes derived parts only. -/
theorem evaluated_same (r : StoredSituation) (result : EvidencePolicyResult) (n : ℕ) :
    (r.evaluated result n).Same r ∧ (r.evaluated result n).tombstoneReason = r.tombstoneReason := by
  unfold StoredSituation.evaluated
  split_ifs <;> exact ⟨⟨rfl, rfl, rfl⟩, rfl⟩

/-- Recomputing the evidence leaves the ledger and changes derived parts of one report. -/
theorem recomputeEvidence_cases {id : String} {now : Instant}
    (h : recomputeEvidence crowdRulesFor s id now = .ok s') :
    s'.ledger = s.ledger ∧ (s' = s ∨ ∃ r result n, s.situations.get id = some r ∧
      s'.situations = s.situations.set id (r.evaluated result n)) := by
  unfold recomputeEvidence at h
  split at h
  · cases h
    exact ⟨rfl, Or.inl rfl⟩
  · next r hget =>
    split_ifs at h
    · cases h
      exact ⟨rfl, Or.inl rfl⟩
    · split at h
      · cases h
        exact ⟨rfl, Or.inl rfl⟩
      · split at h
        · cases h
        · cases h
          exact ⟨rfl, Or.inl rfl⟩
        · next result n _ =>
          cases h
          exact ⟨rfl, Or.inr ⟨r, result, n, hget, rfl⟩⟩

/-- **What a merge does**: the merged report is superseded, and the survivor's ledger gains the
confirmation that names it and the confirmations of the merged report. -/
structure Merges (s : Crowd) (survivor merged : StoredSituation) (s' : Crowd) : Prop where
  kept : ∀ e ∈ s.ledger, e ∈ s'.ledger
  added : ∀ e ∈ s'.ledger, e ∈ s.ledger ∨ (e.recordId = survivor.id ∧
    e.row.evidenceKind = "confirm" ∧ (e.details.bind RowDetails.merged = some merged.id ∨
      ∃ m ∈ s.ledger, m.recordId = merged.id ∧ m.row.evidenceKind = "confirm" ∧
        e.details = m.details))
  named : (∃ e ∈ s.ledger, e.recordId = survivor.id ∧ e.confirmsMerge merged.id = true) ∨
    ∃ e ∈ s'.ledger, e.recordId = survivor.id ∧ e.confirmsMerge merged.id = true ∧
      e.row.actorKeyId = merged.keyId
  carried : ∀ m ∈ s.ledger, m.recordId = merged.id → m.row.evidenceKind = "confirm" →
    ∃ e ∈ s'.ledger, e.recordId = survivor.id ∧ e.row.evidenceKind = "confirm" ∧
      e.row.actorKeyId = m.row.actorKeyId ∧ (e.details = m.details)
  situations : ∀ id r, s.situations.get id = some r → ∃ r', s'.situations.get id = some r' ∧
    r'.Same r ∧ r'.tombstoneReason = if id = merged.id then some "superseded" else r.tombstoneReason
  missing : ∀ id, s.situations.get id = none → s'.situations.get id = none

/-- A merge of two reports. -/
theorem merges_of_mergeReports {survivor merged : StoredSituation} {now : Instant}
    (hsurvivor : s.situations.get survivor.id = some survivor)
    (hmerged : s.situations.get merged.id = some merged) (hne : survivor.id ≠ merged.id)
    (h : mergeReports crowdRulesFor s survivor merged now = .ok s') :
    Merges s survivor merged s' := by
  unfold mergeReports at h
  simp only at h
  set confirmed := s.append (mergeRow s survivor merged) survivor.id with hconfirmed
  set carried := confirmed.append (carriedRows confirmed survivor.id merged.id) survivor.id
    with hcarried
  have hsituations : carried.situations = s.situations := by
    rw [hcarried, situations_append, hconfirmed, situations_append]
  have htombstone : carried.tombstone merged.id "superseded" = { carried with
      situations := s.situations.set merged.id
        { merged with tombstoneReason := some "superseded" } } := by
    unfold Crowd.tombstone
    rw [hsituations, hmerged]
  obtain ⟨hledger, hcases⟩ := recomputeEvidence_cases h
  rw [htombstone] at hledger hcases
  have hcarriedKept : ∀ {e}, e ∈ carried.ledger → e ∈ s'.ledger := fun he => by
    rw [hledger]
    exact he
  -- The rows of the merged report are not among those the confirmation appends.
  have hrows : ∀ m ∈ confirmed.rowsOf merged.id, m ∈ s.ledger ∧ m.recordId = merged.id := by
    intro m hm
    obtain ⟨hm, hid⟩ := List.mem_filter.mp hm
    have hid : m.recordId = merged.id := by simpa using hid
    refine ⟨(mem_append hm).resolve_right ?_, hid⟩
    rintro ⟨row, details, i, -, rfl⟩
    exact hne hid
  refine ⟨fun e he => hcarriedKept (ledger_append (ledger_append he)), ?_, ?_, ?_, ?_, ?_⟩
  · intro e he
    rw [hledger] at he
    rcases mem_append he with he | ⟨row, details, i, hrow, rfl⟩
    · rcases mem_append he with he | ⟨row, details, i, hrow, rfl⟩
      · exact Or.inl he
      · unfold mergeRow at hrow
        split_ifs at hrow
        · cases hrow
        · obtain ⟨rfl, rfl⟩ := Prod.mk.inj (List.mem_singleton.mp hrow)
          exact Or.inr ⟨rfl, rfl, Or.inl rfl⟩
    · obtain ⟨m, hm, heq⟩ := List.mem_map.mp hrow
      obtain ⟨rfl, rfl⟩ := Prod.mk.inj heq
      obtain ⟨hm, hkind⟩ := List.mem_filter.mp hm
      have hconfirm : m.row.evidenceKind = "confirm" := by
        rw [Bool.and_eq_true] at hkind
        exact of_decide_eq_true hkind.1
      obtain ⟨hmem, hid⟩ := hrows m hm
      exact Or.inr ⟨rfl, hconfirm, Or.inr ⟨m, hmem, hid, hconfirm, rfl⟩⟩
  · by_cases hheld : (s.rowsOf survivor.id).any (fun r => r.confirmsMerge merged.id) = true
    · obtain ⟨e, he, hnames⟩ := List.any_eq_true.mp hheld
      obtain ⟨he, hid⟩ := List.mem_filter.mp he
      exact Or.inl ⟨e, he, by simpa using hid, hnames⟩
    · obtain ⟨i, hin⟩ := @mem_append_of_mem s _ survivor.id _ _ (show _ ∈ mergeRow s survivor merged by
        unfold mergeRow
        rw [if_neg hheld]
        exact List.mem_singleton_self _)
      exact Or.inr ⟨_, hcarriedKept (ledger_append hin), rfl, by simp [LedgerRow.confirmsMerge], rfl⟩
  · intro m hm hid hconfirm
    have hrow : m ∈ confirmed.rowsOf merged.id :=
      List.mem_filter.mpr ⟨ledger_append hm, by simpa using hid⟩
    by_cases hheld : (confirmed.rowsOf survivor.id).any (fun r => decide (r.row.evidenceKind =
        "confirm" ∧ r.row.actorKeyId = m.row.actorKeyId) && sameDetails r.details m.details) = true
    · obtain ⟨e, he, hsame⟩ := List.any_eq_true.mp hheld
      obtain ⟨he, heid⟩ := List.mem_filter.mp he
      rw [Bool.and_eq_true] at hsame
      obtain ⟨hkind, hactor⟩ := of_decide_eq_true hsame.1
      refine ⟨e, hcarriedKept (ledger_append he), by simpa using heid, hkind, hactor, ?_⟩
      unfold sameDetails at hsame
      split at hsame
      · next a b ha hb => rw [ha, hb, of_decide_eq_true hsame.2]
      · cases hsame.2
    · obtain ⟨i, hin⟩ := @mem_append_of_mem confirmed (carriedRows confirmed survivor.id merged.id)
        survivor.id m.row m.details (List.mem_map.mpr ⟨m, List.mem_filter.mpr ⟨hrow, by
          simp only [hconfirm, decide_true, Bool.true_and, Bool.not_eq_true'] at hheld ⊢
          simpa using hheld⟩, rfl⟩)
      exact ⟨_, hcarriedKept hin, rfl, hconfirm, rfl, rfl⟩
  · intro id r hget
    have hset : ∃ r', (s.situations.set merged.id
        { merged with tombstoneReason := some "superseded" }).get id = some r' ∧ r'.Same r ∧
        r'.tombstoneReason =
          if id = merged.id then some "superseded" else r.tombstoneReason := by
      by_cases hid : id = merged.id
      · subst hid
        rw [hmerged] at hget
        obtain rfl := Option.some.inj hget
        exact ⟨_, OrderedMap.get_set_self _ _ _, ⟨rfl, rfl, rfl⟩, by rw [if_pos rfl]⟩
      · exact ⟨r, by rw [OrderedMap.get_set_of_ne _ _ hid, hget], .refl r, by rw [if_neg hid]⟩
    obtain ⟨r', hr', hsame, hreason⟩ := hset
    rcases hcases with rfl | ⟨r₁, result, n, hr₁, hsit⟩
    · exact ⟨r', hr', hsame, hreason⟩
    · by_cases hid : id = survivor.id
      · subst hid
        rw [hr'] at hr₁
        obtain rfl := Option.some.inj hr₁
        obtain ⟨hev, hevReason⟩ := evaluated_same r' result n
        exact ⟨_, by rw [hsit]; exact OrderedMap.get_set_self _ _ _, hev.trans hsame,
          hevReason.trans hreason⟩
      · exact ⟨r', by rw [hsit, OrderedMap.get_set_of_ne _ _ hid]; exact hr', hsame, hreason⟩
  · intro id hget
    have hid : id ≠ merged.id := fun heq => by
      rw [heq, hmerged] at hget
      cases hget
    have hset : (s.situations.set merged.id
        { merged with tombstoneReason := some "superseded" }).get id = none := by
      rwa [OrderedMap.get_set_of_ne _ _ hid]
    rcases hcases with rfl | ⟨r₁, result, n, -, hsit⟩
    · exact hset
    · rw [hsit]
      have hsid : id ≠ survivor.id := fun heq => by
        rw [heq, hsurvivor] at hget
        cases hget
      rwa [OrderedMap.get_set_of_ne _ _ hsid]

/-! ## What every call keeps -/

/-- Reports that have landed and were not merged yet: each with its own ledger, in which a report is
its reporter's. -/
structure Landed (s : Crowd) : Prop where
  ids : ∀ id r, s.situations.get id = some r → r.id = id
  live : ∀ id r, s.situations.get id = some r → r.tombstoneReason = none
  unmerged : ∀ e ∈ s.ledger, e.details.bind RowDetails.merged = none
  reportKey : ∀ e ∈ s.ledger, e.row.evidenceKind = "report" →
    ∀ r, s.situations.get e.recordId = some r → e.row.actorKeyId = r.keyId

/-- **What every sequence of calls keeps**, of the reports that landed, the merges that were made and
the heads they leave. -/
structure Corroborated (s₀ s : Crowd) (merges : List (String × String)) (head : String → String) :
    Prop where
  heads : HeadsOf merges head
  missing : ∀ id, s₀.situations.get id = none → s.situations.get id = none ∧ head id = id
  report : ∀ id r₀, s₀.situations.get id = some r₀ → ∃ r, s.situations.get id = some r ∧
    r.Same r₀ ∧ r.tombstoneReason = if head id = id then none else some "superseded"
  earliest : ∀ id r₀, s₀.situations.get id = some r₀ → ∃ h₀,
    s₀.situations.get (head id) = some h₀ ∧ h₀.rank ≤ r₀.rank
  names : ∀ e ∈ s.ledger, ∀ child, e.confirmsMerge child = true →
    head e.recordId = head child ∧ ∃ p₀ c₀, s₀.situations.get e.recordId = some p₀ ∧
      s₀.situations.get child = some c₀ ∧ p₀.rank < c₀.rank
  named : ∀ id, head id ≠ id → ∃ e ∈ s.ledger, e.recordId = head id ∧ e.confirmsMerge id = true
  witness : ∀ e ∈ s₀.ledger, e.row.evidenceKind = "confirm" → ∃ e' ∈ s.ledger,
    e'.recordId = head e.recordId ∧ e'.row.evidenceKind = "confirm" ∧
      e'.row.actorKeyId = e.row.actorKeyId
  reporter : ∀ id r₀, s₀.situations.get id = some r₀ → head id ≠ id → ∃ e ∈ s.ledger,
    e.recordId = head id ∧ e.row.evidenceKind = "confirm" ∧ e.row.actorKeyId = r₀.keyId
  reports : ∀ e ∈ s.ledger, e.row.evidenceKind = "report" → e ∈ s₀.ledger

variable {s₀ : Crowd} {merges : List (String × String)} {head : String → String}

/-- Before any call. -/
theorem Landed.corroborated (h : Landed s₀) : Corroborated s₀ s₀ [] id where
  heads := .nil
  missing _ hget := ⟨hget, rfl⟩
  report i r₀ hget := ⟨r₀, hget, .refl r₀, (h.live i r₀ hget).trans (if_pos rfl).symm⟩
  earliest _ r₀ hget := ⟨r₀, hget, le_rfl⟩
  names e he child hnames := by
    simp [LedgerRow.confirmsMerge, h.unmerged e he] at hnames
  named _ hne := absurd rfl hne
  witness e he hconfirm := ⟨e, he, rfl, hconfirm, rfl⟩
  reporter _ _ _ hne := absurd rfl hne
  reports _ he _ := he

/-- **One merge of two live reports keeps it.** -/
theorem Corroborated.merge (h : Corroborated s₀ s merges head) {p m p₀ m₀ : StoredSituation}
    (hp₀ : s₀.situations.get p.id = some p₀) (hm₀ : s₀.situations.get m.id = some m₀)
    (hpSame : p.Same p₀) (hmSame : m.Same m₀) (hp : head p.id = p.id) (hm : head m.id = m.id)
    (hne : p.id ≠ m.id) (hearlier : isEarlier p m = true) (hmerge : Merges s p m s') :
    Corroborated s₀ s' (merges ++ [(p.id, m.id)]) (Heads.join head p.id m.id) := by
  have hrank : p₀.rank < m₀.rank := by
    rw [← hpSame.rank, ← hmSame.rank]
    exact Iff.mp isEarlier_iff hearlier
  -- No row of the survivor names the merged report yet: the two have different heads.
  have hunnamed : ¬∃ e ∈ s.ledger, e.recordId = p.id ∧ e.confirmsMerge m.id = true := by
    rintro ⟨e, he, hid, hnames⟩
    have hheads := (h.names e he _ hnames).1
    rw [hid, hp, hm] at hheads
    exact hne hheads
  obtain ⟨named, hnamed, hnamedId, hnamedMerge, hnamedKey⟩ := hmerge.named.resolve_left hunnamed
  -- A confirmation of a report's head is a confirmation of the head it gets.
  have hcarry : ∀ id e, e ∈ s.ledger → e.recordId = head id → e.row.evidenceKind = "confirm" →
      ∃ e' ∈ s'.ledger, e'.recordId = Heads.join head p.id m.id id ∧
        e'.row.evidenceKind = "confirm" ∧ e'.row.actorKeyId = e.row.actorKeyId ∧
        e'.details = e.details := by
    intro id e he hid hconfirm
    by_cases hjoin : head id = m.id
    · obtain ⟨e', he', hid', hkind, hactor, hdetails⟩ :=
        hmerge.carried e he (hid.trans hjoin) hconfirm
      exact ⟨e', he', by rw [join_of_eq hjoin, hid'], hkind, hactor, hdetails⟩
    · exact ⟨e, hmerge.kept e he, by rw [join_of_ne hjoin, hid], hconfirm, rfl, rfl⟩
  have hsameHead : ∀ {x y}, head x = head y →
      Heads.join head p.id m.id x = Heads.join head p.id m.id y := by
    intro x y hxy
    unfold Heads.join
    rw [hxy]
  have hpJoin : Heads.join head p.id m.id p.id = p.id := by
    rw [join_of_ne (by rwa [hp]), hp]
  have hmJoin : Heads.join head p.id m.id m.id = p.id := join_of_eq hm
  refine ⟨h.heads.join hp hm hne, ?_, ?_, ?_, ?_, ?_, ?_, ?_, ?_⟩
  · intro id hget
    obtain ⟨hs, hid⟩ := h.missing id hget
    have hidm : id ≠ m.id := fun heq => by
      rw [heq, hm₀] at hget
      cases hget
    exact ⟨hmerge.missing id hs, by rw [join_of_ne (by rwa [hid]), hid]⟩
  · intro id r₀ hget
    obtain ⟨r, hr, hsame, hreason⟩ := h.report id r₀ hget
    obtain ⟨r', hr', hsame', hreason'⟩ := hmerge.situations id r hr
    refine ⟨r', hr', hsame'.trans hsame, hreason'.trans ?_⟩
    by_cases hid : id = m.id
    · rw [if_pos hid, hid, hmJoin, if_neg hne]
    · rw [if_neg hid, hreason]
      by_cases hjoin : head id = m.id
      · have hidp : p.id ≠ id := by
          rintro rfl
          exact hne (hp.symm.trans hjoin)
        rw [join_of_eq hjoin, if_neg (by rw [hjoin]; exact Ne.symm hid), if_neg hidp]
      · rw [join_of_ne hjoin]
  · intro id r₀ hget
    obtain ⟨h₀, hh₀, hle⟩ := h.earliest id r₀ hget
    by_cases hjoin : head id = m.id
    · rw [hjoin, hm₀] at hh₀
      obtain rfl := Option.some.inj hh₀
      exact ⟨p₀, by rw [join_of_eq hjoin, hp₀], hrank.le.trans hle⟩
    · exact ⟨h₀, by rw [join_of_ne hjoin, hh₀], hle⟩
  · intro e he child hnames
    obtain ⟨hkind, hchild⟩ : e.row.evidenceKind = "confirm" ∧
        e.details.bind RowDetails.merged = some child := by
      simpa [LedgerRow.confirmsMerge] using hnames
    rcases hmerge.added e he with he | ⟨hid, -, hdetails | ⟨m', hm', hid', hkind', hdetails⟩⟩
    · obtain ⟨hheads, hranks⟩ := h.names e he child hnames
      exact ⟨hsameHead hheads, hranks⟩
    · rw [hdetails] at hchild
      obtain rfl := Option.some.inj hchild
      exact ⟨by rw [hid, hpJoin, hmJoin], p₀, m₀, by rw [hid, hp₀], hm₀, hrank⟩
    · have hnames' : m'.confirmsMerge child = true := by
        rw [hdetails] at hchild
        simp [LedgerRow.confirmsMerge, hkind', hchild]
      obtain ⟨hheads, q₀, c₀, hq₀, hc₀, hqc⟩ := h.names m' hm' child hnames'
      rw [hid', hm₀] at hq₀
      obtain rfl := Option.some.inj hq₀
      refine ⟨?_, p₀, c₀, by rw [hid, hp₀], hc₀, hrank.trans hqc⟩
      rw [hid, hpJoin, ← hsameHead hheads, hid', hmJoin]
  · intro id hid
    by_cases hidm : id = m.id
    · exact ⟨named, hnamed, by rw [hnamedId, hidm, hmJoin], by rw [hidm, hnamedMerge]⟩
    · have hhead : head id ≠ id := by
        intro heq
        have hjoin : head id ≠ m.id := by rwa [heq]
        exact hid (by rw [join_of_ne hjoin, heq])
      obtain ⟨e, he, heid, hnames⟩ := h.named id hhead
      have hsimp : e.row.evidenceKind = "confirm" ∧
          e.details.bind RowDetails.merged = some id := by
        simpa [LedgerRow.confirmsMerge] using hnames
      obtain ⟨e', he', hid', hkind', -, hdetails⟩ := hcarry id e he heid hsimp.1
      exact ⟨e', he', hid', by simp [LedgerRow.confirmsMerge, hkind', hdetails, hsimp.2]⟩
  · intro e he hconfirm
    obtain ⟨e', he', hid', hkind', hactor⟩ := h.witness e he hconfirm
    obtain ⟨e'', he'', hid'', hkind'', hactor', -⟩ := hcarry e.recordId e' he' hid' hkind'
    exact ⟨e'', he'', hid'', hkind'', hactor'.trans hactor⟩
  · intro id r₀ hget hid
    by_cases hidm : id = m.id
    · subst hidm
      rw [hm₀] at hget
      obtain rfl := Option.some.inj hget
      have hconfirm : named.row.evidenceKind = "confirm" := by
        have := hnamedMerge
        simp only [LedgerRow.confirmsMerge, decide_eq_true_eq] at this
        exact this.1
      exact ⟨named, hnamed, by rw [hnamedId, hmJoin], hconfirm, hnamedKey.trans hmSame.keyId⟩
    · have hhead : head id ≠ id := by
        intro heq
        have hjoin : head id ≠ m.id := by rwa [heq]
        exact hid (by rw [join_of_ne hjoin, heq])
      obtain ⟨e, he, heid, hkind, hactor⟩ := h.reporter id r₀ hget hhead
      obtain ⟨e', he', hid', hkind', hactor', -⟩ := hcarry id e he heid hkind
      exact ⟨e', he', hid', hkind', hactor'.trans hactor⟩
  · intro e he hreport
    rcases hmerge.added e he with he | ⟨-, hconfirm, -⟩
    · exact h.reports e he hreport
    · rw [hreport] at hconfirm
      exact absurd hconfirm (by decide)

/-- **One call keeps it.** -/
theorem Corroborated.corroborate (hids : ∀ id r, s₀.situations.get id = some r → r.id = id)
    (h : Corroborated s₀ s merges head) (c : Call) : ∃ head',
      Corroborated s₀ (corroborate crowdRulesFor s c) (merges ++ mergeOf crowdRulesFor s c)
        head' := by
  unfold Contrib.corroborate mergeOf
  cases hcall : applyCorroboration crowdRulesFor s c.idA c.idB c.now with
  | error e => exact ⟨head, by simpa using h⟩
  | ok s' =>
    unfold applyCorroboration at hcall
    split_ifs at hcall with hsame
    cases ha : s.situations.get c.idA with
    | none =>
      rw [ha] at hcall
      cases hcall
    | some a =>
      cases hb : s.situations.get c.idB with
      | none =>
        rw [ha, hb] at hcall
        cases hcall
      | some b =>
        rw [ha, hb] at hcall
        simp only at hcall ⊢
        by_cases hended : a.tombstoneReason ≠ none ∨ b.tombstoneReason ≠ none
        · rw [if_pos hended] at hcall ⊢
          obtain rfl := Except.ok.inj hcall
          exact ⟨head, by simpa using h⟩
        · rw [if_neg hended] at hcall ⊢
          rw [not_or, not_not, not_not] at hended
          -- A live report is stored under its id and is its own head.
          have hlive : ∀ {id r}, s.situations.get id = some r → r.tombstoneReason = none →
              r.id = id ∧ head id = id ∧ ∃ r₀, s₀.situations.get id = some r₀ ∧ r.Same r₀ := by
            intro id r hr hreason
            cases hr₀ : s₀.situations.get id with
            | none =>
              rw [(h.missing id hr₀).1] at hr
              cases hr
            | some r₀ =>
              obtain ⟨r', hr', hsame, hreason'⟩ := h.report id r₀ hr₀
              rw [hr] at hr'
              obtain rfl := Option.some.inj hr'
              refine ⟨hsame.id.trans (hids id r₀ hr₀), ?_, r₀, rfl, hsame⟩
              by_contra hne
              rw [if_neg hne, hreason] at hreason'
              cases hreason'
          obtain ⟨haId, haHead, a₀, ha₀, haSame⟩ := hlive ha hended.1
          obtain ⟨hbId, hbHead, b₀, hb₀, hbSame⟩ := hlive hb hended.2
          rw [← haId] at ha ha₀ haHead hsame
          rw [← hbId] at hb hb₀ hbHead hsame
          by_cases hearlier : isEarlier a b = true
          · rw [if_pos hearlier] at hcall ⊢
            cases hmerge : mergeReports crowdRulesFor s a b c.now with
            | error e =>
              rw [hmerge] at hcall
              cases hcall
            | ok s₁ =>
              rw [hmerge] at hcall
              obtain rfl := Except.ok.inj hcall
              exact ⟨_, h.merge ha₀ hb₀ haSame hbSame haHead hbHead hsame hearlier
                (merges_of_mergeReports ha hb hsame hmerge)⟩
          · have hearlier' := isEarlier_of_not hsame hearlier
            rw [if_neg hearlier] at hcall ⊢
            cases hmerge : mergeReports crowdRulesFor s b a c.now with
            | error e =>
              rw [hmerge] at hcall
              cases hcall
            | ok s₁ =>
              rw [hmerge] at hcall
              obtain rfl := Except.ok.inj hcall
              exact ⟨_, h.merge hb₀ ha₀ hbSame haSame hbHead haHead (Ne.symm hsame) hearlier'
                (merges_of_mergeReports hb ha (Ne.symm hsame) hmerge)⟩

/-- **Every sequence of calls keeps it.** -/
theorem Corroborated.corroborateAll (hids : ∀ id r, s₀.situations.get id = some r → r.id = id)
    (calls : List Call) : ∀ {s : Crowd} {merges : List (String × String)} {head : String → String},
    Corroborated s₀ s merges head → ∃ head', Corroborated s₀ (corroborateAll crowdRulesFor s calls)
      (merges ++ mergesOf crowdRulesFor s calls) head' := by
  induction calls with
  | nil =>
    intro s merges head h
    refine ⟨head, ?_⟩
    rw [mergesOf, List.append_nil]
    exact h
  | cons c calls ih =>
    intro s merges head h
    obtain ⟨head₁, h₁⟩ : ∃ head₁, Corroborated s₀ (Contrib.corroborate crowdRulesFor s c)
        (merges ++ mergeOf crowdRulesFor s c) head₁ := h.corroborate hids c
    obtain ⟨head₂, h₂⟩ := ih h₁
    refine ⟨head₂, ?_⟩
    rwa [List.append_assoc] at h₂

/-! ## The live head of a cluster -/

/-- The keys that stand behind an entry of a ledger besides its originator's, which its
corroborations are counted by. -/
def creditedKeys (ledger : EvidenceLedger) : Finset String :=
  let admissible := ledger.entries.filter fun e => (admitted ledger.now e).isSome
  let originator := (admissible.find? fun e => e.kind = .report).bind EvidenceEntry.reporterKey
  ((admissible.filter fun e => e.kind = .confirm ∨ e.kind = .report).filterMap fun e =>
    e.reporterKey.filter fun key => decide (some key ≠ originator)).toFinset

/-- The corroborations of a ledger are its credited keys. -/
theorem corroborations_eq (ledger : EvidenceLedger) :
    corroborations ledger = (creditedKeys ledger).card := rfl

/-- A key that reported something, or confirmed it before any merge. -/
def Witness (s₀ : Crowd) (id k : String) : Prop :=
  (∃ r, s₀.situations.get id = some r ∧ r.keyId = some k) ∨
    ∃ e ∈ s₀.rowsOf id, e.row.evidenceKind = "confirm" ∧ e.row.actorKeyId = some k

/-- The report was merged into another, whose ledger names it. -/
def SupersededBy (s : Crowd) (id parent : String) : Prop :=
  (∃ r, s.situations.get id = some r ∧ r.tombstoneReason = some "superseded") ∧
    ∃ e ∈ s.rowsOf parent, e.confirmsMerge id = true

/-- **The live head of a report's cluster**, the reports that some merges connect it with. -/
structure LiveHead (s₀ s : Crowd) (merges : List (String × String)) (id head : String) : Prop where
  connected : Connected merges id head
  live : ∃ r, s.situations.get head = some r ∧ r.tombstoneReason = none
  only : ∀ x, Connected merges id x → x ≠ head →
    ∃ r, s.situations.get x = some r ∧ r.tombstoneReason = some "superseded"
  earliest : ∀ x, Connected merges id x → x ≠ head → ∃ r r', s.situations.get head = some r ∧
    s.situations.get x = some r' ∧ isEarlier r r' = true
  names : ∀ x, Connected merges id x → x ≠ head → ∃ e ∈ s.rowsOf head, e.confirmsMerge x = true
  /-- Its ledger credits each witness, once all its rows have come. -/
  credits : ∀ now ledger, (∀ e ∈ s.rowsOf head, e.row.occurredAt ≤ now) →
    evidenceRowsToLedger (readEvidence ((s.rowsOf head).map LedgerRow.row)) (some now) = .ok ledger →
    ∀ x, Connected merges id x → ∀ k, Witness s₀ x k →
      (∀ r, s.situations.get head = some r → r.keyId ≠ some k) → k ∈ creditedKeys ledger

/-- The entry of a row carries its key. -/
theorem reporterKey_of_entryOf {row : ReportEvidenceRow} {e : EvidenceEntry}
    (h : entryOf row = .ok e) : e.reporterKey = row.actorKeyId := by
  unfold entryOf at h
  split at h
  case h_4 => split at h <;> cases h; rfl
  all_goals (cases h; try rfl)

/-- A confirmation by a key that is not the reporter's is credited. -/
theorem mem_creditedKeys {rows : List ReportEvidenceRow} {now : Instant} {ledger : EvidenceLedger}
    {row : ReportEvidenceRow} {k : String}
    (h : evidenceRowsToLedger (readEvidence rows) (some now) = .ok ledger) (hrow : row ∈ rows)
    (hconfirm : row.evidenceKind = "confirm") (hkey : row.actorKeyId = some k)
    (hnow : row.occurredAt ≤ now)
    (hother : ∀ r ∈ rows, r.evidenceKind = "report" → r.actorKeyId ≠ some k) :
    k ∈ creditedKeys ledger := by
  obtain ⟨hentries, hledgerNow, -⟩ := evidenceRowsToLedger_eq_ok.mp h
  have hentry : entryOf row = .ok (baseEntry row .confirm none) := by
    simp [entryOf, hconfirm]
  have hmem : baseEntry row .confirm none ∈ ledger.entries :=
    (mem_of_forall₂_entryOf hentries).mpr ⟨row, (List.mem_insertionSort _).mpr hrow, hentry⟩
  have hadmitted : (admitted ledger.now (baseEntry row .confirm none)).isSome = true := by
    rw [hledgerNow]
    simp [admitted, baseEntry, hnow]
  have horiginator : ((ledger.entries.filter fun e => (admitted ledger.now e).isSome).find?
      fun e => decide (e.kind = .report)).bind EvidenceEntry.reporterKey ≠ some k := by
    intro heq
    obtain ⟨e, hfind, hekey⟩ := Option.bind_eq_some_iff.mp heq
    have hreport : e.kind = .report := by simpa using List.find?_some hfind
    have hein := (List.mem_filter.mp (List.mem_of_find?_eq_some hfind)).1
    obtain ⟨r, hr, hre⟩ := (mem_of_forall₂_entryOf hentries).mp hein
    rcases report_of_entryOf hre with ⟨hrkind, -, -⟩ | ⟨-, hnot⟩
    · rw [reporterKey_of_entryOf hre] at hekey
      exact hother r ((List.mem_insertionSort _).mp hr) hrkind hekey
    · exact hnot hreport
  unfold creditedKeys
  refine List.mem_toFinset.mpr (List.mem_filterMap.mpr ⟨baseEntry row .confirm none,
    List.mem_filter.mpr ⟨List.mem_filter.mpr ⟨hmem, hadmitted⟩, by simp [baseEntry]⟩, ?_⟩)
  have hreporter : (baseEntry row .confirm none).reporterKey = some k := hkey
  rw [hreporter, Option.filter_some, if_pos (decide_eq_true (Ne.symm horiginator))]

/-- **What the calls keep says that a report's head is the live head of its cluster.** -/
theorem Corroborated.liveHead (h₀ : Landed s₀) (h : Corroborated s₀ s merges head) {id : String}
    {r₀ : StoredSituation} (hr₀ : s₀.situations.get id = some r₀) :
    LiveHead s₀ s merges id (head id) := by
  -- Every report of the cluster is stored, and has the same head.
  have hcluster : ∀ x, Connected merges id x → head x = head id ∧
      ∃ x₀, s₀.situations.get x = some x₀ := by
    intro x hx
    have hhead := (h.heads.connected_iff.mp hx).symm
    refine ⟨hhead, ?_⟩
    cases hget : s₀.situations.get x with
    | some x₀ => exact ⟨x₀, rfl⟩
    | none =>
      obtain ⟨hh, hhget, -⟩ := h.earliest id r₀ hr₀
      rw [← hhead, (h.missing x hget).2, hget] at hhget
      cases hhget
  obtain ⟨h₁, hh₁, -⟩ := h.earliest id r₀ hr₀
  obtain ⟨r, hr, hsame, hreason⟩ := h.report (head id) h₁ hh₁
  rw [if_pos (h.heads.idem id)] at hreason
  refine ⟨h.heads.reaches id, ⟨r, hr, hreason⟩, ?_, ?_, ?_, ?_⟩
  · intro x hx hne
    obtain ⟨hhead, x₀, hx₀⟩ := hcluster x hx
    obtain ⟨rx, hrx, -, hrxReason⟩ := h.report x x₀ hx₀
    exact ⟨rx, hrx, by rw [hrxReason, if_neg (by rw [hhead]; exact Ne.symm hne)]⟩
  · intro x hx hne
    obtain ⟨hhead, x₀, hx₀⟩ := hcluster x hx
    obtain ⟨rx, hrx, hrxSame, -⟩ := h.report x x₀ hx₀
    obtain ⟨h₂, hh₂, hle⟩ := h.earliest x x₀ hx₀
    rw [hhead, hh₁] at hh₂
    obtain rfl := Option.some.inj hh₂
    refine ⟨r, rx, hr, hrx, ?_⟩
    by_contra hnot
    rw [isEarlier_iff, hsame.rank, hrxSame.rank, not_lt] at hnot
    have hids := Utf16.codeUnits_injective
      (Prod.ext_iff.mp (toLex.injective (le_antisymm hle hnot))).2
    rw [h₀.ids _ _ hh₁, h₀.ids _ _ hx₀] at hids
    exact hne hids.symm
  · intro x hx hne
    obtain ⟨hhead, -⟩ := hcluster x hx
    obtain ⟨e, he, hid, hnames⟩ := h.named x (by rw [hhead]; exact Ne.symm hne)
    exact ⟨e, List.mem_filter.mpr ⟨he, by simp [hid, hhead]⟩, hnames⟩
  · intro now ledger hnow hledger x hx k hwitness hkey
    obtain ⟨hhead, x₀, hx₀⟩ := hcluster x hx
    have hkey₁ : h₁.keyId ≠ some k := hsame.keyId ▸ hkey r hr
    -- Some confirmation by the key is among the rows of the head.
    have hrow : ∃ e ∈ s.ledger, e.recordId = head id ∧ e.row.evidenceKind = "confirm" ∧
        e.row.actorKeyId = some k := by
      rcases hwitness with ⟨rx, hrx, hk⟩ | ⟨e, he, hconfirm, hk⟩
      · have hne : head x ≠ x := by
          intro heq
          rw [← heq, hhead, hh₁] at hrx
          obtain rfl := Option.some.inj hrx
          exact hkey₁ hk
        obtain ⟨e, he, hid, hkind, hactor⟩ := h.reporter x rx hrx hne
        exact ⟨e, he, hid.trans hhead, hkind, hactor.trans hk⟩
      · obtain ⟨he, hid⟩ := List.mem_filter.mp he
        have hid : e.recordId = x := by simpa using hid
        obtain ⟨e', he', hid', hkind, hactor⟩ := h.witness e he hconfirm
        exact ⟨e', he', by rw [hid', hid, hhead], hkind, hactor.trans hk⟩
    obtain ⟨e, he, hid, hkind, hactor⟩ := hrow
    have hmem : e ∈ s.rowsOf (head id) := List.mem_filter.mpr ⟨he, by simpa using hid⟩
    refine mem_creditedKeys hledger (List.mem_map_of_mem hmem) hkind hactor (hnow e hmem) ?_
    intro row hrow hreport
    obtain ⟨e', he', rfl⟩ := List.mem_map.mp hrow
    obtain ⟨he', hid'⟩ := List.mem_filter.mp he'
    have hid' : e'.recordId = head id := by simpa using hid'
    rw [h₀.reportKey e' (h.reports e' he' hreport) hreport h₁ (by rw [hid', hh₁])]
    exact hkey₁

/-! ## The walk to the survivor -/

/-- The order of parents is a total preorder. -/
theorem orders_parentLe {collate : String → String → Bool} (h : Sorting.OrdersBy collate) :
    Sorting.OrdersBy (parentLe collate) := by
  have hids : Sorting.OrdersBy fun p q : StoredSituation => collate p.id q.id :=
    ⟨fun a b => h.total a.id b.id, fun a b c => h.trans a.id b.id c.id⟩
  exact hids.descendingThen.descendingThen

/-- The parent of a superseded report is the live head of its cluster. -/
theorem Corroborated.parentOf {collate : String → String → Bool} (hcollate : Sorting.OrdersBy collate)
    (h₀ : Landed s₀) (h : Corroborated s₀ s merges head) {r : StoredSituation}
    (hid : head r.id ≠ r.id) (hreason : r.tombstoneReason = some "superseded") :
    ∃ p, Contrib.parentOf collate s r = some p ∧ p.id = head r.id := by
  obtain ⟨e, he, heid, hnames⟩ := h.named r.id hid
  obtain ⟨hheads, p₀, c₀, hp₀, hc₀, -⟩ := h.names e he r.id hnames
  obtain ⟨p, hp, hpSame, hpReason⟩ := h.report _ p₀ hp₀
  rw [heid, h.heads.idem, if_pos rfl] at hpReason
  have hcandidate : p ∈ s.ledger.filterMap fun e =>
      if e.confirmsMerge r.id && decide (e.recordId ≠ r.id) then
        (s.situations.get e.recordId).filter fun p =>
          decide (p.tombstoneReason = none ∨ p.tombstoneReason = some "superseded")
      else none := by
    refine List.mem_filterMap.mpr ⟨e, he, ?_⟩
    have hne : e.recordId ≠ r.id := by rwa [heid]
    rw [hnames, Bool.true_and, if_pos (by simpa using hne), hp, Option.filter_some,
      if_pos (by simp [hpReason])]
  unfold Contrib.parentOf
  rw [if_neg (by simp [hreason])]
  set candidates := s.ledger.filterMap fun e =>
    if e.confirmsMerge r.id && decide (e.recordId ≠ r.id) then
      (s.situations.get e.recordId).filter fun p =>
        decide (p.tombstoneReason = none ∨ p.tombstoneReason = some "superseded")
    else none with hcandidates
  have hsorted := Sorting.sortBy_pairwise (orders_parentLe hcollate) candidates
  cases hfirst : Sorting.sortBy (parentLe collate) candidates with
  | nil =>
    have hmem : p ∈ Sorting.sortBy (parentLe collate) candidates :=
      Sorting.mem_sortBy.mpr hcandidate
    rw [hfirst] at hmem
    cases hmem
  | cons q rest =>
    refine ⟨q, rfl, ?_⟩
    -- The first candidate is live, since one of them is.
    have hqLive : q.tombstoneReason = none := by
      have hmem : p ∈ q :: rest := by
        rw [← hfirst]
        exact Sorting.mem_sortBy.mpr hcandidate
      rw [hfirst] at hsorted
      rcases List.mem_cons.mp hmem with rfl | hmem
      · exact hpReason
      · have hle := (List.pairwise_cons.mp hsorted).1 p hmem
        rw [parentLe, Sorting.descendingThen_iff] at hle
        rcases hle with hlt | ⟨heq, -⟩
        · rw [hpReason] at hlt
          exact absurd hlt (not_lt.mpr le_top)
        · rw [hpReason] at heq
          simpa using heq
    have hqSorted : q ∈ Sorting.sortBy (parentLe collate) candidates :=
      hfirst ▸ List.mem_cons_self ..
    have hq : q ∈ candidates := Sorting.mem_sortBy.mp hqSorted
    obtain ⟨e', he', hcond⟩ := List.mem_filterMap.mp hq
    split_ifs at hcond with hif
    obtain ⟨hget, -⟩ := Option.filter_eq_some_iff.mp hcond
    rw [Bool.and_eq_true] at hif
    obtain ⟨hheads', q₀, -, hq₀, -, -⟩ := h.names e' he' r.id hif.1
    obtain ⟨q', hq', hqSame, hqReason⟩ := h.report _ q₀ hq₀
    rw [hget] at hq'
    obtain rfl := Option.some.inj hq'
    have hqHead : head e'.recordId = e'.recordId := by
      by_contra hne
      rw [if_neg hne, hqLive] at hqReason
      cases hqReason
    rw [hqSame.id, h₀.ids _ _ hq₀, ← hheads', hqHead]

/-- **The survivor of a report is the live head of its cluster.** -/
theorem Corroborated.survivorOf {collate : String → String → Bool}
    (hcollate : Sorting.OrdersBy collate) (h₀ : Landed s₀) (h : Corroborated s₀ s merges head)
    {id : String} {r₀ : StoredSituation} (hr₀ : s₀.situations.get id = some r₀) :
    Contrib.survivorOf collate s maxSurvivorHops id [] = some (head id) := by
  have hlive : ∀ {x hops visited}, head x = x → (∃ x₀, s₀.situations.get x = some x₀) →
      x ∉ visited → Contrib.survivorOf collate s (hops + 1) x visited = some x := by
    intro x hops visited hx hstored hvisited
    obtain ⟨x₀, hx₀⟩ := hstored
    obtain ⟨r, hr, hsame, hreason⟩ := h.report x x₀ hx₀
    rw [if_pos hx] at hreason
    unfold Contrib.survivorOf
    rw [hr]
    simp only
    rw [if_neg (by simpa using hvisited), if_pos hreason, hsame.id, h₀.ids x x₀ hx₀]
  obtain ⟨h₁, hh₁, -⟩ := h.earliest id r₀ hr₀
  by_cases hid : head id = id
  · rw [hid]
    exact hlive hid ⟨r₀, hr₀⟩ List.not_mem_nil
  · obtain ⟨r, hr, hsame, hreason⟩ := h.report id r₀ hr₀
    rw [if_neg hid] at hreason
    have hrId : r.id = id := hsame.id.trans (h₀.ids id r₀ hr₀)
    obtain ⟨p, hp, hpId⟩ := h.parentOf hcollate h₀ (by rwa [hrId]) hreason
    rw [maxSurvivorHops, Contrib.survivorOf, hr]
    simp only
    rw [if_neg (by simp), if_neg (by simp [hreason]), if_neg (by simp [hreason]), hp]
    simp only
    rw [hpId, hrId]
    exact hlive (h.heads.idem id) ⟨h₁, hh₁⟩ (by simpa using hid)

/-- **Corroboration keeps one live head per cluster**: whatever calls are made on reports that have
landed, no two reports are superseded by each other, and each report has a live head, which is its
survivor. -/
theorem corroboration_liveHead (crowdRulesFor : StoredSituation → Option CrowdRules)
    {collate : String → String → Bool} (hcollate : Sorting.OrdersBy collate) (h₀ : Landed s₀)
    (calls : List Call) :
    (∀ a b, ¬(SupersededBy (corroborateAll crowdRulesFor s₀ calls) a b ∧
      SupersededBy (corroborateAll crowdRulesFor s₀ calls) b a)) ∧
    ∀ id, (∃ r, s₀.situations.get id = some r) → ∃ liveHead,
      LiveHead s₀ (corroborateAll crowdRulesFor s₀ calls) (mergesOf crowdRulesFor s₀ calls) id
        liveHead ∧
      ∀ ids, id ∈ ids → (id, some liveHead) ∈
        resolveSurvivors collate (corroborateAll crowdRulesFor s₀ calls) ids := by
  obtain ⟨head, h⟩ : ∃ head, Corroborated s₀ (corroborateAll crowdRulesFor s₀ calls)
      ([] ++ mergesOf crowdRulesFor s₀ calls) head :=
    h₀.corroborated.corroborateAll h₀.ids calls
  rw [List.nil_append] at h
  constructor
  · rintro a b ⟨⟨-, e, he, hnames⟩, -, e', he', hnames'⟩
    obtain ⟨he, hid⟩ := List.mem_filter.mp he
    obtain ⟨he', hid'⟩ := List.mem_filter.mp he'
    have hid : e.recordId = b := by simpa using hid
    have hid' : e'.recordId = a := by simpa using hid'
    obtain ⟨-, b₀, a₀, hb₀, ha₀, hlt⟩ := h.names e he a hnames
    obtain ⟨-, a₁, b₁, ha₁, hb₁, hlt'⟩ := h.names e' he' b hnames'
    rw [hid, hb₁] at hb₀
    rw [hid', ha₀] at ha₁
    obtain rfl := Option.some.inj hb₀
    obtain rfl := Option.some.inj ha₁
    exact lt_asymm hlt hlt'
  · rintro id ⟨r₀, hr₀⟩
    refine ⟨head id, h.liveHead h₀ hr₀, fun ids hids => ?_⟩
    exact List.mem_map.mpr ⟨id, List.mem_eraseDups.mpr hids, by rw [h.survivorOf hcollate h₀ hr₀]⟩

/-- A landed report of a key. -/
def landedReport (id key : String) : StoredSituation where
  id := id
  start := some Instant.epoch
  validFrom := some 0
  origin := "crowd"
  peerCopy := false
  keyId := some key
  sourceId := "crowd"
  fetchedAt := Instant.epoch
  statedExpiresAt := none
  tombstoneReason := none
  evidenceState := none
  routingEligible := false
  confidenceScore := 0
  corroborations := 0
  expiresAt := none

/-- Two landed reports. -/
def twoReports : Crowd where
  situations := (OrderedMap.empty.set "a" (landedReport "a" "first")).set "b"
    (landedReport "b" "second")
  ledger := []
  nextId := 1

/-- Two reports corroborated from both sides. -/
theorem corroboration_liveHead_sample : ∃ liveHead,
    LiveHead twoReports (corroborateAll (fun _ => none) twoReports
        [⟨"b", "a", Instant.epoch⟩, ⟨"a", "b", Instant.epoch⟩])
      (mergesOf (fun _ => none) twoReports
        [⟨"b", "a", Instant.epoch⟩, ⟨"a", "b", Instant.epoch⟩]) "b" liveHead := by
  have hcollate : Sorting.OrdersBy fun a b => !Utf16.lt b a := by
    constructor
    · intro a b
      simpa [Utf16.lt_eq_false_iff] using le_total (Utf16.codeUnits a) (Utf16.codeUnits b)
    · intro a b c
      simpa [Utf16.lt_eq_false_iff] using le_trans
  have hget : ∀ id r, twoReports.situations.get id = some r →
      r = landedReport "a" "first" ∧ id = "a" ∨ r = landedReport "b" "second" ∧ id = "b" := by
    intro id r h
    rw [twoReports, OrderedMap.get_set, OrderedMap.get_set, OrderedMap.get_empty] at h
    split_ifs at h with hb ha
    · exact Or.inr ⟨(Option.some.inj h).symm, hb⟩
    · exact Or.inl ⟨(Option.some.inj h).symm, ha⟩
  have hlanded : Landed twoReports := by
    refine ⟨?_, ?_, (fun e he => by cases he), fun e he => by cases he⟩
    · intro id r h
      rcases hget id r h with ⟨rfl, rfl⟩ | ⟨rfl, rfl⟩ <;> rfl
    · intro id r h
      rcases hget id r h with ⟨rfl, -⟩ | ⟨rfl, -⟩ <;> rfl
  obtain ⟨liveHead, h, -⟩ := (corroboration_liveHead (fun _ => none) hcollate hlanded
    [⟨"b", "a", Instant.epoch⟩, ⟨"a", "b", Instant.epoch⟩]).2 "b" ⟨landedReport "b" "second", by
      rw [twoReports]
      exact OrderedMap.get_set_self _ _ _⟩
  exact ⟨liveHead, h⟩

end OpenConditions.Contrib

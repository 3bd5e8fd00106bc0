import OpenConditions.Federation.Outbox

set_option relaxedAutoImplicit false
set_option autoImplicit false

/-!
# Reading the outbox without gaps

A reader that continues from the high-water mark of each page has scanned every committed row at
or before its mark, once, whatever order the transactions commit in.  Every transaction in
progress lies after the mark, because the rows of a page are settled and the mark is one of them;
so a row that commits later is still ahead.

The mark travels as text, and a sequence number comes back from it only while it is a safe
integer.  Past those the read throws, and the reader stays where it is.

## Main definitions

* `Reading.frontier` — the key of the last row scanned.
* `Reading.Inv` — the invariant of the journal and its reader.
* `Reading.rowsAhead` — how many stored rows stand between the frontier and a row.

## Main results

* `Reading.inv_of_run` — the invariant of every run.
* `Reading.rowsAhead_step` — every read past a settled row brings the reader closer to it.
* `outbox_read_gapFree` — nothing before the mark is missed, nothing is scanned twice, and every
  settled row is reached.
-/

namespace OpenConditions.Federation

open Transition

/-! ## The cursor on the wire -/

/-- The decimal text of a transaction id. -/
def xidText (txid : ℕ) : String := String.ofList (Nat.toDigits 10 txid)

/-- The characters of a decimal text are digits. -/
theorem all_isDigit_toDigits (n : ℕ) : ∀ c ∈ Nat.toDigits 10 n, c.isDigit = true :=
  fun _ hc => Nat.isDigit_of_mem_toDigits (by decide) (by decide) hc

/-- A transaction id is read back from its text. -/
theorem xid8Of_xidText {txid : ℕ} (h : txid < xid8Bound) : xid8Of (xidText txid) = some txid := by
  have hdigits : (Nat.toDigits 10 txid).all Char.isDigit = true :=
    List.all_eq_true.mpr (all_isDigit_toDigits txid)
  simp only [xid8Of, xidText, String.toList_ofList, Nat.ofDigitChars_ten_toDigits]
  rw [if_pos ⟨Nat.toDigits_ne_nil, hdigits, h⟩]

/-- A cursor comes back from the wire when its sequence number is a safe integer, and does not
otherwise. -/
theorem decodeOutboxCursor_encodeOutboxCursor (txid seq : ℕ) :
    decodeOutboxCursor (encodeOutboxCursor ⟨xidText txid, seq⟩) =
      if seq ≤ Double.maxSafeInteger then some ⟨xidText txid, seq⟩ else none := by
  have hdigits := all_isDigit_toDigits txid
  have htake : (Nat.toDigits 10 txid ++ '.' :: Nat.toDigits 10 (Double.shortest seq)).takeWhile
      Char.isDigit = Nat.toDigits 10 txid := by
    rw [List.takeWhile_append_of_pos hdigits]
    simp
  have hdrop : (Nat.toDigits 10 txid ++ '.' :: Nat.toDigits 10 (Double.shortest seq)).dropWhile
      Char.isDigit = '.' :: Nat.toDigits 10 (Double.shortest seq) := by
    rw [List.dropWhile_append_of_pos hdigits]
    simp
  have hall : (Nat.toDigits 10 (Double.shortest seq)).all Char.isDigit = true :=
    List.all_eq_true.mpr (all_isDigit_toDigits _)
  simp only [decodeOutboxCursor, encodeOutboxCursor, xidText, String.toList_ofList, htake, hdrop,
    hall, Nat.ofDigitChars_ten_toDigits, ne_eq, Nat.toDigits_ne_nil, not_false_eq_true, and_self,
    if_true, Double.isSafeInteger, decide_eq_true_eq, Double.ofNat_safe_iff]
  split_ifs with hshort hseq hseq
  · rw [Double.shortest_of_safe hseq, Double.ofNat_of_safe hseq]
  · exact absurd hshort (not_le.mpr (Double.shortest_of_not_safe (not_le.mp hseq)))
  · rw [Double.shortest_of_safe hseq] at hshort
    exact absurd hseq hshort
  · rfl

/-- The cursor of a key. -/
def cursorOf (key : ℕ ×ₗ ℕ) : OutboxCursor :=
  ⟨xidText (ofLex key).1, Double.ofNat (ofLex key).2⟩

/-- The cursor of a key comes back from the wire exactly when its sequence number is safe. -/
theorem decodeOutboxCursor_cursorOf (key : ℕ ×ₗ ℕ) :
    decodeOutboxCursor (encodeOutboxCursor (cursorOf key)) =
      if (ofLex key).2 ≤ Double.maxSafeInteger then some (cursorOf key) else none := by
  simp only [cursorOf, decodeOutboxCursor_encodeOutboxCursor, Double.ofNat_safe_iff]

/-! ## The reader's position -/

section Position

variable {C F : Type}

/-- The key of the last row scanned. -/
def Reading.frontier (s : Reading C) : ℕ ×ₗ ℕ :=
  Keyset.frontier JournalRow.key (toLex (0, 0)) s.scanned

/-- The reader's mark is the cursor of its frontier, or there is none and it has scanned nothing. -/
def Reading.Marked (s : Reading C) : Prop :=
  (s.after = none ∧ s.scanned = []) ∨ s.after = some (encodeOutboxCursor (cursorOf s.frontier))

/-- The rows of the next page. -/
def Reading.nextPage (s : Reading C) (xmin : ℕ) (q : OutboxQuery F) : List (JournalRow C) :=
  Keyset.page JournalRow.key s.journal.rows (selects xmin (s.query q)) s.frontier
    (pageLimit q.limit)

/-- The row's transaction is settled in the snapshot, and nothing else keeps it from a page. -/
theorem selects_query (s : Reading C) (xmin : ℕ) (q : OutboxQuery F) (row : JournalRow C) :
    selects xmin (s.query q) row = decide (row.txid < xmin) := by
  simp [selects, Reading.query]

/-- The cursor a marked reader continues from. -/
theorem Reading.Marked.normalizeCursor {s : Reading C} (h : s.Marked) :
    normalizeCursor (s.after.map .wire) =
      if (ofLex s.frontier).2 ≤ Double.maxSafeInteger then .ok (cursorOf s.frontier)
      else .error (.typeError ("readOutbox: malformed cursor \"" ++
        encodeOutboxCursor (cursorOf s.frontier) ++ "\"")) := by
  rcases h with ⟨hafter, hscanned⟩ | hafter
  · have hfrontier : s.frontier = toLex (0, 0) := by
      simp [Reading.frontier, Keyset.frontier, hscanned]
    rw [hafter, hfrontier]
    rfl
  · rw [hafter]
    simp only [Option.map_some, Federation.normalizeCursor, decodeOutboxCursor_cursorOf]
    split_ifs <;> rfl

/-- What a read of a marked reader scans. -/
theorem Reading.Marked.readRows {s : Reading C} (h : s.Marked)
    (hxid : (ofLex s.frontier).1 < xid8Bound) (xmin : ℕ) (q : OutboxQuery F) :
    readRows s.journal.rows xmin (s.query q) =
      if (ofLex s.frontier).2 ≤ Double.maxSafeInteger then
        .ok (cursorOf s.frontier, s.nextPage xmin q)
      else .error (.typeError ("readOutbox: malformed cursor \"" ++
        encodeOutboxCursor (cursorOf s.frontier) ++ "\"")) := by
  have hcursor : Federation.normalizeCursor (s.query q).after = _ := h.normalizeCursor
  unfold Federation.readRows
  rw [hcursor]
  by_cases hsafe : (ofLex s.frontier).2 ≤ Double.maxSafeInteger
  · simp only [if_pos hsafe]
    have hxid' : xid8Of (cursorOf s.frontier).txid = some (ofLex s.frontier).1 :=
      xid8Of_xidText hxid
    rw [hxid']
    simp only [cursorOf, Double.ofNat_of_safe hsafe, Prod.mk.eta, toLex_ofLex]
    rfl
  · simp only [if_neg hsafe]

/-- The frontier after a further page. -/
theorem frontier_append (after : ℕ ×ₗ ℕ) (l m : List (JournalRow C)) :
    Keyset.frontier JournalRow.key after (l ++ m) =
      Keyset.frontier JournalRow.key (Keyset.frontier JournalRow.key after l) m := by
  unfold Keyset.frontier
  rw [List.getLast?_append]
  cases m.getLast? <;> simp

end Position

/-! ## The invariant -/

section Invariant

variable {C E F : Type} {rowToEntry : JournalRow C → Option E}
  {applyRecordFilter : List E → Option F → Option String → List E}

/-- The invariant of the journal: ids and sequence numbers are fresh, and a row is stored only
once its transaction has ended. -/
structure Journal.Inv (j : Journal C) : Prop where
  nextXid_le : j.nextXid ≤ xid8Bound
  active_lt : ∀ txid ∈ j.active, txid < j.nextXid
  pending_active : ∀ row ∈ j.pending, row.txid ∈ j.active
  rows_lt : ∀ row ∈ j.rows, row.txid < j.nextXid
  rows_settled : ∀ row ∈ j.rows, row.txid ∉ j.active
  seq_lt : ∀ row ∈ j.rows ++ j.pending, row.seq < j.nextSeq
  seq_nodup : ((j.rows ++ j.pending).map JournalRow.seq).Nodup

/-- The invariant of the journal and its reader. -/
structure Reading.Inv (s : Reading C) : Prop where
  journal : s.journal.Inv
  marked : s.Marked
  frontier_xid : (ofLex s.frontier).1 < s.journal.nextXid
  frontier_seq : (ofLex s.frontier).2 < s.journal.nextSeq
  /-- Every transaction in progress lies after the frontier. -/
  frontier_active : ∀ txid ∈ s.journal.active, (ofLex s.frontier).1 < txid
  /-- Every stored row up to the frontier has been scanned. -/
  scanned_of_le : ∀ row ∈ s.journal.rows, row.key ≤ s.frontier → row ∈ s.scanned
  scanned_pairwise : s.scanned.Pairwise fun a b => a.key < b.key

/-- Every event of the journal keeps its invariant. -/
theorem Journal.Inv.step {j j' : Journal C} {event : JournalEvent C} (h : j.Inv)
    (hstep : j.step event = some j') : j'.Inv := by
  cases event with
  | start =>
    simp only [Journal.step] at hstep
    split_ifs at hstep with hbound
    cases hstep
    exact
      { nextXid_le := hbound
        active_lt := by
          intro txid htxid
          rcases List.mem_cons.mp htxid with rfl | hmem
          · exact Nat.lt_succ_self _
          · exact (h.active_lt txid hmem).trans (Nat.lt_succ_self _)
        pending_active := fun row hrow => List.mem_cons_of_mem _ (h.pending_active row hrow)
        rows_lt := fun row hrow => (h.rows_lt row hrow).trans (Nat.lt_succ_self _)
        rows_settled := by
          intro row hrow hmem
          rcases List.mem_cons.mp hmem with heq | hactive
          · exact absurd (h.rows_lt row hrow) (by omega)
          · exact h.rows_settled row hrow hactive
        seq_lt := h.seq_lt
        seq_nodup := h.seq_nodup }
  | write row =>
    simp only [Journal.step] at hstep
    split_ifs at hstep with hguard
    cases hstep
    obtain ⟨hactive, hseq, -⟩ := hguard
    exact
      { nextXid_le := h.nextXid_le
        active_lt := h.active_lt
        pending_active := by
          intro r hr
          rcases List.mem_append.mp hr with hold | hnew
          · exact h.pending_active r hold
          · rwa [List.mem_singleton.mp hnew]
        rows_lt := h.rows_lt
        rows_settled := h.rows_settled
        seq_lt := by
          intro r hr
          rw [← List.append_assoc] at hr
          rcases List.mem_append.mp hr with hold | hnew
          · have := h.seq_lt r hold
            change r.seq < row.seq + 1
            omega
          · rw [List.mem_singleton.mp hnew]
            exact Nat.lt_succ_self _
        seq_nodup := by
          rw [← List.append_assoc, List.map_append, List.nodup_append]
          refine ⟨h.seq_nodup, by simp, ?_⟩
          intro a ha b hb
          obtain ⟨r, hr, rfl⟩ := List.mem_map.mp ha
          simp only [List.map_cons, List.map_nil, List.mem_singleton] at hb
          have := h.seq_lt r hr
          omega }
  | commit txid =>
    simp only [Journal.step] at hstep
    split_ifs at hstep with hactive
    cases hstep
    have hperm : ((j.rows ++ j.pending.filter (·.txid = txid)) ++
        j.pending.filter (·.txid ≠ txid)).Perm (j.rows ++ j.pending) := by
      rw [List.append_assoc]
      refine List.Perm.append_left _ ?_
      simpa using List.filter_append_perm (fun row : JournalRow C => decide (row.txid = txid))
        j.pending
    exact
      { nextXid_le := h.nextXid_le
        active_lt := fun x hx => h.active_lt x (List.mem_of_mem_filter hx)
        pending_active := by
          intro row hrow
          obtain ⟨hmem, hne⟩ := List.mem_filter.mp hrow
          exact List.mem_filter.mpr ⟨h.pending_active row hmem, hne⟩
        rows_lt := by
          intro row hrow
          rcases List.mem_append.mp hrow with hold | hnew
          · exact h.rows_lt row hold
          · exact h.active_lt _ (h.pending_active row (List.mem_of_mem_filter hnew))
        rows_settled := by
          intro row hrow hmem
          obtain ⟨hmem, hne⟩ := List.mem_filter.mp hmem
          rcases List.mem_append.mp hrow with hold | hnew
          · exact h.rows_settled row hold hmem
          · simp only [List.mem_filter, decide_eq_true_eq] at hnew hne
            exact hne hnew.2
        seq_lt := fun row hrow => h.seq_lt row (hperm.mem_iff.mp hrow)
        seq_nodup := (hperm.map _).nodup_iff.mpr h.seq_nodup }
  | abort txid =>
    simp only [Journal.step] at hstep
    split_ifs at hstep with hactive
    cases hstep
    have hsub : (j.rows ++ j.pending.filter (·.txid ≠ txid)).Sublist (j.rows ++ j.pending) :=
      (List.Sublist.refl _).append List.filter_sublist
    exact
      { nextXid_le := h.nextXid_le
        active_lt := fun x hx => h.active_lt x (List.mem_of_mem_filter hx)
        pending_active := by
          intro row hrow
          obtain ⟨hmem, hne⟩ := List.mem_filter.mp hrow
          exact List.mem_filter.mpr ⟨h.pending_active row hmem, hne⟩
        rows_lt := h.rows_lt
        rows_settled := fun row hrow hmem => h.rows_settled row hrow (List.mem_of_mem_filter hmem)
        seq_lt := fun row hrow => h.seq_lt row (hsub.subset hrow)
        seq_nodup := h.seq_nodup.sublist (hsub.map _) }
  | remove gone =>
    cases hstep
    have hsub : (j.rows.filter (fun row => !gone row) ++ j.pending).Sublist (j.rows ++ j.pending) :=
      List.filter_sublist.append (List.Sublist.refl _)
    exact
      { nextXid_le := h.nextXid_le
        active_lt := h.active_lt
        pending_active := h.pending_active
        rows_lt := fun row hrow => h.rows_lt row (List.mem_of_mem_filter hrow)
        rows_settled := fun row hrow => h.rows_settled row (List.mem_of_mem_filter hrow)
        seq_lt := fun row hrow => h.seq_lt row (hsub.subset hrow)
        seq_nodup := h.seq_nodup.sublist (hsub.map _) }

/-- The keys of the stored rows are distinct. -/
theorem Journal.Inv.key_nodup {j : Journal C} (h : j.Inv) :
    (j.rows.map JournalRow.key).Nodup := by
  have hseq : (j.rows.map JournalRow.seq).Nodup :=
    h.seq_nodup.sublist ((List.sublist_append_left _ _).map _)
  have hmap : (j.rows.map JournalRow.key).map (fun k => (ofLex k).2) =
      j.rows.map JournalRow.seq := by
    rw [List.map_map]
    rfl
  exact List.Nodup.of_map (fun k : ℕ ×ₗ ℕ => (ofLex k).2) (hmap ▸ hseq)

/-- What a read does to a marked reader: it scans the next page and moves its frontier there, or
throws on a frontier whose sequence number is not safe. -/
theorem Reading.read_cases {s s' : Reading C} {xmin : ℕ} {q : OutboxQuery F} (h : s.Inv)
    (hstep : s.step rowToEntry applyRecordFilter (.read xmin q) = some s') :
    (∀ txid ∈ s.journal.active, xmin ≤ txid) ∧
      (((ofLex s.frontier).2 ≤ Double.maxSafeInteger ∧ s'.journal = s.journal ∧
          s'.scanned = s.scanned ++ s.nextPage xmin q ∧
          s'.frontier = Keyset.frontier JournalRow.key s.frontier (s.nextPage xmin q) ∧
          s'.Marked) ∨
        (Double.maxSafeInteger < (ofLex s.frontier).2 ∧ s' = s)) := by
  have hrows := h.marked.readRows (h.frontier_xid.trans_le h.journal.nextXid_le) xmin q
  simp only [Reading.step, readOutbox, hrows] at hstep
  split_ifs at hstep with hxmin hsafe
  · refine ⟨hxmin, Or.inl ?_⟩
    cases hstep
    have hscanned : (s.pages ++ [s.nextPage xmin q]).flatten =
        s.scanned ++ s.nextPage xmin q := by simp [Reading.scanned]
    have hfrontier : Keyset.frontier JournalRow.key (toLex (0, 0))
        (s.pages ++ [s.nextPage xmin q]).flatten =
          Keyset.frontier JournalRow.key s.frontier (s.nextPage xmin q) := by
      rw [hscanned, frontier_append]
      rfl
    refine ⟨hsafe, rfl, hscanned, hfrontier, Or.inr ?_⟩
    simp only [Reading.frontier, Reading.scanned, hfrontier]
    simp only [Keyset.frontier]
    cases (s.nextPage xmin q).getLast? with
    | none => rfl
    | some last => rfl
  · exact ⟨hxmin, Or.inr ⟨not_le.mp hsafe, (Option.some.inj hstep).symm⟩⟩

/-- The rows of a page are stored, settled in the snapshot and past the frontier. -/
theorem Reading.of_mem_nextPage {s : Reading C} {xmin : ℕ} {q : OutboxQuery F} {row : JournalRow C}
    (h : row ∈ s.nextPage xmin q) :
    row ∈ s.journal.rows ∧ s.frontier < row.key ∧ row.txid < xmin := by
  obtain ⟨hrow, hkey, hready⟩ := Keyset.of_mem_page h
  rw [selects_query, decide_eq_true_eq] at hready
  exact ⟨hrow, hkey, hready⟩

/-- A key up to another one has a transaction id up to the other's. -/
theorem JournalRow.txid_le_of_key_le {row : JournalRow C} {key : ℕ ×ₗ ℕ} (h : row.key ≤ key) :
    row.txid ≤ (ofLex key).1 := by
  rcases Prod.Lex.le_iff.mp h with hlt | ⟨heq, -⟩
  · exact hlt.le
  · exact heq.le

/-- After a page, the frontier is where it was or at one of the page's rows. -/
theorem frontier_cases (after : ℕ ×ₗ ℕ) (items : List (JournalRow C)) :
    Keyset.frontier JournalRow.key after items = after ∨
      ∃ row ∈ items, Keyset.frontier JournalRow.key after items = row.key := by
  unfold Keyset.frontier
  cases hlast : items.getLast? with
  | none => exact Or.inl rfl
  | some row => exact Or.inr ⟨row, List.mem_of_getLast? hlast, rfl⟩

/-- **One read keeps the invariant.** Every transaction in progress lies after the rows of a page,
and the page leaves out no stored row up to its last one.

**Proof sketch.** A stored row up to the new frontier is up to the old one, and scanned, or past it.
In the latter case the new frontier is the key of a row of the page, whose transaction is before
`xmin`, and with it the row's own; so the row is ready, and on the page. -/
theorem Reading.Inv.read {s s' : Reading C} {xmin : ℕ} {q : OutboxQuery F} (h : s.Inv)
    (hstep : s.step rowToEntry applyRecordFilter (.read xmin q) = some s') : s'.Inv := by
  obtain ⟨hxmin, ⟨-, hjournal, hscanned, hfrontier, hmarked⟩ | ⟨-, rfl⟩⟩ := read_cases h hstep
  · have hcases := frontier_cases s.frontier (s.nextPage xmin q)
    rw [← hfrontier] at hcases
    exact
      { journal := hjournal ▸ h.journal
        marked := hmarked
        frontier_xid := by
          rw [hjournal]
          rcases hcases with heq | ⟨row, hrow, heq⟩
          · exact heq ▸ h.frontier_xid
          · exact heq ▸ h.journal.rows_lt row (of_mem_nextPage hrow).1
        frontier_seq := by
          rw [hjournal]
          rcases hcases with heq | ⟨row, hrow, heq⟩
          · exact heq ▸ h.frontier_seq
          · exact heq ▸ h.journal.seq_lt row (List.mem_append_left _ (of_mem_nextPage hrow).1)
        frontier_active := by
          intro txid htxid
          rw [hjournal] at htxid
          rcases hcases with heq | ⟨row, hrow, heq⟩
          · exact heq ▸ h.frontier_active txid htxid
          · rw [heq]
            exact (of_mem_nextPage hrow).2.2.trans_le (hxmin txid htxid)
        scanned_of_le := by
          intro row hrow hle
          rw [hjournal] at hrow
          rw [hscanned]
          rcases le_or_gt row.key s.frontier with hold | hnew
          · exact List.mem_append_left _ (h.scanned_of_le row hrow hold)
          · refine List.mem_append_right _ ?_
            have hready : row.txid < xmin := by
              rcases hcases with heq | ⟨last, hlast, heq⟩
              · exact absurd (heq ▸ hle) (not_le.mpr hnew)
              · have hlast' : row.txid ≤ last.txid := JournalRow.txid_le_of_key_le (heq ▸ hle)
                exact hlast'.trans_lt (of_mem_nextPage hlast).2.2
            exact Keyset.mem_page_of_le_frontier h.journal.key_nodup hrow hnew
              (by rw [selects_query, decide_eq_true_eq]; exact hready) (hfrontier ▸ hle)
        scanned_pairwise := by
          rw [hscanned, List.pairwise_append]
          refine ⟨h.scanned_pairwise, Keyset.page_pairwise_lt h.journal.key_nodup, ?_⟩
          intro a ha b hb
          exact (Keyset.le_frontier_of_mem (h.scanned_pairwise.imp le_of_lt) ha).trans_lt
            (of_mem_nextPage hb).2.1 }
  · exact h

/-- The rows an event of the journal adds belong to a transaction that was in progress. -/
theorem Journal.mem_rows_step {j j' : Journal C} {event : JournalEvent C} (h : j.Inv)
    (hstep : j.step event = some j') {row : JournalRow C} (hrow : row ∈ j'.rows) :
    row ∈ j.rows ∨ row.txid ∈ j.active := by
  cases event with
  | start =>
    simp only [Journal.step] at hstep
    split_ifs at hstep
    cases hstep
    exact Or.inl hrow
  | write row =>
    simp only [Journal.step] at hstep
    split_ifs at hstep
    cases hstep
    exact Or.inl hrow
  | commit txid =>
    simp only [Journal.step] at hstep
    split_ifs at hstep
    cases hstep
    rcases List.mem_append.mp hrow with hold | hnew
    · exact Or.inl hold
    · exact Or.inr (h.pending_active row (List.mem_of_mem_filter hnew))
  | abort txid =>
    simp only [Journal.step] at hstep
    split_ifs at hstep
    cases hstep
    exact Or.inl hrow
  | remove gone =>
    cases hstep
    exact Or.inl (List.mem_of_mem_filter hrow)

/-- What an event of the journal hands out and puts in progress. -/
theorem Journal.counters_step {j j' : Journal C} {event : JournalEvent C}
    (hstep : j.step event = some j') :
    j.nextXid ≤ j'.nextXid ∧ j.nextSeq ≤ j'.nextSeq ∧
      ∀ txid ∈ j'.active, txid ∈ j.active ∨ txid = j.nextXid := by
  cases event with
  | start =>
    simp only [Journal.step] at hstep
    split_ifs at hstep
    cases hstep
    exact ⟨Nat.le_succ _, le_rfl, fun txid h => (List.mem_cons.mp h).symm⟩
  | write row =>
    simp only [Journal.step] at hstep
    split_ifs at hstep with hguard
    cases hstep
    exact ⟨le_rfl, hguard.2.1.trans (Nat.le_succ _), fun txid h => Or.inl h⟩
  | commit txid =>
    simp only [Journal.step] at hstep
    split_ifs at hstep
    cases hstep
    exact ⟨le_rfl, le_rfl, fun x h => Or.inl (List.mem_of_mem_filter h)⟩
  | abort txid =>
    simp only [Journal.step] at hstep
    split_ifs at hstep
    cases hstep
    exact ⟨le_rfl, le_rfl, fun x h => Or.inl (List.mem_of_mem_filter h)⟩
  | remove gone =>
    cases hstep
    exact ⟨le_rfl, le_rfl, fun txid h => Or.inl h⟩

/-- A journal event leaves the reader as it is. -/
theorem Reading.journal_step {s s' : Reading C} {event : JournalEvent C}
    (hstep : s.step rowToEntry applyRecordFilter (.journal event) = some s') :
    ∃ j', s.journal.step event = some j' ∧ s' = { s with journal := j' } := by
  obtain ⟨j', hj', rfl⟩ := Option.map_eq_some_iff.mp hstep
  exact ⟨j', hj', rfl⟩

/-- **Every event keeps the invariant.** A row that is stored later belongs to a transaction that
was in progress, so it lies after the frontier. -/
theorem Reading.Inv.step {s s' : Reading C} {event : ReadingEvent C F} (h : s.Inv)
    (hstep : s.step rowToEntry applyRecordFilter event = some s') : s'.Inv := by
  cases event with
  | read xmin q => exact h.read hstep
  | journal event =>
    obtain ⟨j', hj', rfl⟩ := journal_step hstep
    obtain ⟨hxid, hseq, hactive⟩ := Journal.counters_step hj'
    exact
      { journal := h.journal.step hj'
        marked := h.marked
        frontier_xid := h.frontier_xid.trans_le hxid
        frontier_seq := h.frontier_seq.trans_le hseq
        frontier_active := by
          intro txid htxid
          rcases hactive txid htxid with hold | rfl
          · exact h.frontier_active txid hold
          · exact h.frontier_xid
        scanned_of_le := by
          intro row hrow hle
          rcases Journal.mem_rows_step h.journal hj' hrow with hold | hnew
          · exact h.scanned_of_le row hold hle
          · exact absurd (JournalRow.txid_le_of_key_le hle)
              (not_le.mpr (h.frontier_active row.txid hnew))
        scanned_pairwise := h.scanned_pairwise }

/-- The invariant holds of an empty journal and a reader that has not read. -/
theorem Reading.inv_initial : (Reading.initial C).Inv where
  journal :=
    { nextXid_le := show 3 ≤ xid8Bound by decide
      active_lt := by simp [Reading.initial, Journal.initial]
      pending_active := by simp [Reading.initial, Journal.initial]
      rows_lt := by simp [Reading.initial, Journal.initial]
      rows_settled := by simp [Reading.initial, Journal.initial]
      seq_lt := by simp [Reading.initial, Journal.initial]
      seq_nodup := by simp [Reading.initial, Journal.initial] }
  marked := Or.inl ⟨rfl, rfl⟩
  frontier_xid := show 0 < 3 by decide
  frontier_seq := show 0 < 1 by decide
  frontier_active := by simp [Reading.initial, Journal.initial]
  scanned_of_le := by simp [Reading.initial, Journal.initial]
  scanned_pairwise := List.Pairwise.nil

/-- The invariant holds in every run. -/
theorem Reading.inv_of_run {s : Reading C} {events : List (ReadingEvent C F)}
    (hrun : run (Reading.step rowToEntry applyRecordFilter) (.initial C) events = some s) :
    s.Inv :=
  run_invariant (fun _ _ _ h hstep => h.step hstep) inv_initial hrun

/-! ## Progress -/

/-- The stored rows between the frontier and a row, the row with them. -/
def Reading.rowsAhead (s : Reading C) (row : JournalRow C) : ℕ :=
  s.journal.rows.countP fun x => decide (s.frontier < x.key ∧ x.key ≤ row.key)

/-- The row is stored, and every transaction up to its own has ended. -/
structure Reading.Settled (s : Reading C) (row : JournalRow C) : Prop where
  stored : row ∈ s.journal.rows
  active : ∀ txid ∈ s.journal.active, row.txid < txid

/-- The event does not prune or erase the row. -/
def Keeps (row : JournalRow C) : ReadingEvent C F → Prop
  | .journal (.remove gone) => gone row = false
  | _ => True

/-- Whether the event is a read whose snapshot lies past the transaction. -/
def readsPast (txid : ℕ) : ReadingEvent C F → Bool
  | .read xmin _ => decide (txid < xmin)
  | _ => false

/-- A row past the frontier is counted ahead. -/
theorem Reading.rowsAhead_pos {s : Reading C} {row : JournalRow C} (hrow : row ∈ s.journal.rows)
    (h : s.frontier < row.key) : 0 < s.rowsAhead row :=
  List.countP_pos_iff.mpr ⟨row, hrow, by simpa using h⟩

/-- A settled row is scanned when no row is ahead. -/
theorem Reading.Inv.scanned_of_rowsAhead {s : Reading C} {row : JournalRow C} (h : s.Inv)
    (hrow : row ∈ s.journal.rows) (hnone : s.rowsAhead row = 0) : row ∈ s.scanned := by
  refine h.scanned_of_le row hrow (not_lt.mp fun hlt => ?_)
  have hpos := rowsAhead_pos hrow hlt
  omega

/-- A settled row stays settled, and no row comes in front of it. -/
theorem Reading.journal_rowsAhead {s s' : Reading C} {event : JournalEvent C} {row : JournalRow C}
    (h : s.Inv) (hset : s.Settled row) (hkeep : Keeps (F := F) row (.journal event))
    (hstep : s.step rowToEntry applyRecordFilter (.journal event) = some s') :
    s'.Settled row ∧ s'.rowsAhead row ≤ s.rowsAhead row := by
  obtain ⟨j', hj', rfl⟩ := journal_step hstep
  have hrowlt := h.journal.rows_lt row hset.stored
  obtain ⟨-, -, hactive⟩ := Journal.counters_step hj'
  have hactive' : ∀ txid ∈ j'.active, row.txid < txid := by
    intro txid htxid
    rcases hactive txid htxid with hold | rfl
    · exact hset.active txid hold
    · exact hrowlt
  cases event with
  | start =>
    simp only [Journal.step] at hj'
    split_ifs at hj'
    cases hj'
    exact ⟨⟨hset.stored, hactive'⟩, le_rfl⟩
  | write new =>
    simp only [Journal.step] at hj'
    split_ifs at hj'
    cases hj'
    exact ⟨⟨hset.stored, hactive'⟩, le_rfl⟩
  | commit txid =>
    simp only [Journal.step] at hj'
    split_ifs at hj' with hmem
    cases hj'
    refine ⟨⟨List.mem_append_left _ hset.stored, hactive'⟩, ?_⟩
    simp only [rowsAhead, List.countP_append, frontier, scanned]
    refine Nat.le_of_eq (Nat.add_eq_left.mpr (List.countP_eq_zero.mpr ?_))
    intro x hx hcount
    have htxid : x.txid = txid := of_decide_eq_true (List.mem_filter.mp hx).2
    have hle : x.txid ≤ row.txid := JournalRow.txid_le_of_key_le (of_decide_eq_true hcount).2
    exact absurd (hset.active txid hmem) (by omega)
  | abort txid =>
    simp only [Journal.step] at hj'
    split_ifs at hj'
    cases hj'
    exact ⟨⟨hset.stored, hactive'⟩, le_rfl⟩
  | remove gone =>
    cases hj'
    refine ⟨⟨List.mem_filter.mpr ⟨hset.stored, ?_⟩, hactive'⟩, ?_⟩
    · have hgone : gone row = false := hkeep
      simp [hgone]
    · exact List.filter_sublist.countP_le

/-- A page of a read past a settled row begins with a row up to it, unless the row is behind. -/
theorem Reading.exists_mem_nextPage {s : Reading C} {row : JournalRow C} {xmin : ℕ}
    {q : OutboxQuery F} (hrow : row ∈ s.journal.rows) (hahead : s.frontier < row.key)
    (hpast : row.txid < xmin) : ∃ x ∈ s.nextPage xmin q, x.key ≤ row.key := by
  by_cases hmem : row ∈ s.nextPage xmin q
  · exact ⟨row, hmem, le_rfl⟩
  · obtain ⟨hfull, hle⟩ := Keyset.full_of_not_mem_page hrow hahead
      (by rw [selects_query, decide_eq_true_eq]; exact hpast) hmem
    have hlimit : 0 < pageLimit q.limit := by
      unfold pageLimit
      omega
    obtain ⟨x, hx⟩ := List.exists_mem_of_length_pos (hfull.symm ▸ hlimit)
    exact ⟨x, hx, hle x hx⟩

/-- A read that does not throw brings no row ahead, and one past a settled row that is ahead
leaves one row fewer. -/
theorem Reading.read_rowsAhead {s s' : Reading C} {xmin : ℕ} {q : OutboxQuery F}
    {row : JournalRow C} (h : s.Inv) (hset : s.Settled row)
    (hsafe : (ofLex s.frontier).2 ≤ Double.maxSafeInteger)
    (hstep : s.step rowToEntry applyRecordFilter (.read xmin q) = some s') :
    s'.Settled row ∧ s'.rowsAhead row ≤ s.rowsAhead row ∧
      (row.txid < xmin → 0 < s.rowsAhead row → s'.rowsAhead row < s.rowsAhead row) := by
  obtain ⟨-, ⟨-, hjournal, -, hfrontier, -⟩ | ⟨hbeyond, -⟩⟩ := read_cases h hstep
  · have hmono : s.frontier ≤ s'.frontier := hfrontier ▸ Keyset.le_frontier_page
    have himp : ∀ x ∈ s.journal.rows, decide (s'.frontier < x.key ∧ x.key ≤ row.key) = true →
        decide (s.frontier < x.key ∧ x.key ≤ row.key) = true := by
      intro x _ hx
      rw [decide_eq_true_eq] at hx ⊢
      exact ⟨hmono.trans_lt hx.1, hx.2⟩
    refine ⟨⟨hjournal ▸ hset.stored, hjournal ▸ hset.active⟩, ?_, ?_⟩
    · unfold rowsAhead
      rw [hjournal]
      exact List.countP_mono_left himp
    · intro hpast hpos
      obtain ⟨y, hy, hcount⟩ := List.countP_pos_iff.mp hpos
      rw [decide_eq_true_eq] at hcount
      obtain ⟨x, hx, hle⟩ := exists_mem_nextPage (q := q) hset.stored
        (hcount.1.trans_le hcount.2) hpast
      have hbehind : x.key ≤ s'.frontier :=
        hfrontier ▸ Keyset.le_frontier_of_mem Keyset.page_pairwise hx
      obtain ⟨hxrow, hxahead, -⟩ := of_mem_nextPage hx
      unfold rowsAhead
      rw [hjournal, List.countP_eq_length_filter, List.countP_eq_length_filter]
      have hsub : s.journal.rows.filter
          (fun x => decide (s'.frontier < x.key ∧ x.key ≤ row.key)) =
          (s.journal.rows.filter (fun x => decide (s.frontier < x.key ∧ x.key ≤ row.key))).filter
            (fun x => decide (s'.frontier < x.key ∧ x.key ≤ row.key)) := by
        rw [List.filter_filter]
        refine List.filter_congr fun x hx => ?_
        cases hd : decide (s'.frontier < x.key ∧ x.key ≤ row.key) with
        | false => rfl
        | true => rw [himp x hx hd, Bool.and_self]
      rw [hsub]
      refine List.length_filter_lt_length_iff_exists.mpr ⟨x, ?_, ?_⟩
      · exact List.mem_filter.mpr ⟨hxrow, by simp [hxahead, hle]⟩
      · simp [hbehind.not_gt]
  · exact absurd hsafe (not_le.mpr hbeyond)

/-- The sequence numbers handed out only grow. -/
theorem Reading.nextSeq_le_step {s s' : Reading C} {event : ReadingEvent C F} (h : s.Inv)
    (hstep : s.step rowToEntry applyRecordFilter event = some s') :
    s.journal.nextSeq ≤ s'.journal.nextSeq := by
  cases event with
  | journal event =>
    obtain ⟨j', hj', rfl⟩ := journal_step hstep
    exact (Journal.counters_step hj').2.1
  | read xmin q =>
    obtain ⟨-, ⟨-, hjournal, -⟩ | ⟨-, rfl⟩⟩ := read_cases h hstep
    · rw [hjournal]
    · exact le_rfl

/-- The sequence numbers handed out only grow over a run. -/
theorem Reading.nextSeq_le_run {s s' : Reading C} {events : List (ReadingEvent C F)} (h : s.Inv)
    (hrun : run (Reading.step rowToEntry applyRecordFilter) s events = some s') :
    s.journal.nextSeq ≤ s'.journal.nextSeq := by
  have hboth : s'.Inv ∧ s.journal.nextSeq ≤ s'.journal.nextSeq := by
    refine run_invariant (I := fun t => t.Inv ∧ s.journal.nextSeq ≤ t.journal.nextSeq)
      (fun t _ t' ht hstep => ?_) ⟨h, le_rfl⟩ hrun
    exact ⟨ht.1.step hstep, ht.2.trans (nextSeq_le_step ht.1 hstep)⟩
  exact hboth.2

/-- **Progress.** While the row is neither pruned nor erased and the sequence numbers are safe,
every read past a settled row leaves one row fewer in front of the reader, until none is. -/
theorem Reading.rowsAhead_run {s s' : Reading C} {row : JournalRow C}
    {events : List (ReadingEvent C F)} (h : s.Inv) (hset : s.Settled row)
    (hkeep : ∀ event ∈ events, Keeps row event)
    (hsafe : s'.journal.nextSeq ≤ Double.maxSafeInteger + 1)
    (hrun : run (Reading.step rowToEntry applyRecordFilter) s events = some s') :
    s'.Settled row ∧
      s'.rowsAhead row ≤ s.rowsAhead row - events.countP (readsPast row.txid) := by
  induction events generalizing s with
  | nil =>
    cases hrun
    exact ⟨hset, le_rfl⟩
  | cons event rest ih =>
    obtain ⟨t, ht, hrest⟩ := run_cons_eq_some.mp hrun
    have hkeep' : ∀ e ∈ rest, Keeps row e := fun e he => hkeep e (List.mem_cons_of_mem _ he)
    have hseq := nextSeq_le_run h hrun
    have hfrontier := h.frontier_seq
    cases event with
    | journal event =>
      obtain ⟨hset', hle⟩ := journal_rowsAhead h hset (hkeep _ (List.mem_cons_self ..)) ht
      obtain ⟨hset'', hle'⟩ := ih (h.step ht) hset' hkeep' hrest
      have hcount : (ReadingEvent.journal event :: rest).countP (readsPast (F := F) row.txid) =
          rest.countP (readsPast row.txid) := List.countP_cons_of_neg (by simp [readsPast])
      exact ⟨hset'', by omega⟩
    | read xmin q =>
      obtain ⟨hset', hle, hlt⟩ := read_rowsAhead h hset (by omega) ht
      obtain ⟨hset'', hle'⟩ := ih (h.step ht) hset' hkeep' hrest
      refine ⟨hset'', ?_⟩
      by_cases hpast : row.txid < xmin
      · have hcount : (ReadingEvent.read xmin q :: rest).countP (readsPast row.txid) =
            rest.countP (readsPast row.txid) + 1 :=
          List.countP_cons_of_pos (by simp [readsPast, hpast])
        have hlt' := hlt hpast
        omega
      · have hcount : (ReadingEvent.read xmin q :: rest).countP (readsPast row.txid) =
            rest.countP (readsPast row.txid) :=
          List.countP_cons_of_neg (by simp [readsPast, hpast])
        omega

/-- Once the frontier's sequence number is not safe, reads leave the reader where it is. -/
theorem Reading.run_reads_of_not_safe {s s' : Reading C} {later : List (ReadingEvent C F)}
    (h : s.Inv) (hbeyond : Double.maxSafeInteger < (ofLex s.frontier).2)
    (hreads : ∀ event ∈ later, ∃ xmin q, event = .read xmin q)
    (hrun : run (Reading.step rowToEntry applyRecordFilter) s later = some s') : s' = s := by
  induction later with
  | nil =>
    cases hrun
    rfl
  | cons event rest ih =>
    obtain ⟨t, ht, hrest⟩ := run_cons_eq_some.mp hrun
    obtain ⟨xmin, q, rfl⟩ := hreads event (List.mem_cons_self ..)
    obtain ⟨-, ⟨hsafe, -⟩ | ⟨-, rfl⟩⟩ := read_cases h ht
    · exact absurd hsafe (not_le.mpr hbeyond)
    · exact ih (fun e he => hreads e (List.mem_cons_of_mem _ he)) hrest

end Invariant

/-! ## The reader, whatever the writers do -/

/-- **The outbox read is gap-free and repeats nothing.** In every run of writers and a reader that
continues from its mark, every stored row up to the reader's frontier has been scanned, and no row
is scanned twice.  While sequence numbers are safe integers, a row whose transaction and all before
it have ended is scanned once the reader has read as many pages past it as rows were ahead of it,
unless it is pruned or erased before. -/
theorem outbox_read_gapFree {C E F : Type} (rowToEntry : JournalRow C → Option E)
    (applyRecordFilter : List E → Option F → Option String → List E) {s : Reading C}
    {events : List (ReadingEvent C F)}
    (hrun : run (Reading.step rowToEntry applyRecordFilter) (.initial C) events = some s) :
    (∀ row ∈ s.journal.rows, row.key ≤ s.frontier → row ∈ s.scanned) ∧
      s.scanned.Nodup ∧
      ∀ row ∈ s.journal.rows, (∀ txid ∈ s.journal.active, row.txid < txid) →
        ∀ later s', run (Reading.step rowToEntry applyRecordFilter) s later = some s' →
          s'.journal.nextSeq ≤ Double.maxSafeInteger + 1 →
          (∀ event ∈ later, Keeps row event) →
          s.rowsAhead row ≤ later.countP (readsPast row.txid) → row ∈ s'.scanned := by
  have h := Reading.inv_of_run hrun
  refine ⟨h.scanned_of_le, h.scanned_pairwise.imp fun hlt heq => ?_, ?_⟩
  · rw [heq] at hlt
    exact lt_irrefl _ hlt
  · intro row hrow hactive later s' hlater hsafe hkeep hreads
    obtain ⟨hset, hle⟩ := Reading.rowsAhead_run h ⟨hrow, hactive⟩ hkeep hsafe hlater
    have h' : s'.Inv := run_invariant (fun _ _ _ ht hstep => ht.step hstep) h hlater
    exact h'.scanned_of_rowsAhead hset.stored (by omega)

/-! ## Two runs -/

/-- A row of a transaction. -/
def sampleRow (txid seq : ℕ) : JournalRow Unit := ⟨seq, txid, .create, false, .epoch, ()⟩

/-- A read of one row a page. -/
def sampleRead (xmin : ℕ) : ReadingEvent Unit Unit :=
  .read xmin ⟨none, none, false, none, some 1, none, none, none⟩

/-- Events of the journal and its reader, with rows that carry nothing. -/
def sampleStep : Reading Unit → ReadingEvent Unit Unit → Option (Reading Unit) :=
  Reading.step (fun row => some row.content) fun entries _ _ => entries

/-- The later of two transactions commits first, and a read between the commits waits for the
earlier one. -/
def sampleInterleaving : List (ReadingEvent Unit Unit) :=
  [.journal .start, .journal (.write (sampleRow 3 1)), .journal .start,
    .journal (.write (sampleRow 4 2)), .journal (.commit 4), sampleRead 3, .journal (.commit 3)]

/-- The row that committed first is scanned on the second page after the other one's commit. -/
theorem outbox_read_gapFree_sample :
    ∃ s s', run sampleStep (.initial Unit) sampleInterleaving = some s ∧
      run sampleStep s [sampleRead 5, sampleRead 5] = some s' ∧
      sampleRow 4 2 ∈ s'.scanned := by
  refine ⟨⟨⟨5, 3, [], [], [sampleRow 4 2, sampleRow 3 1]⟩, some "0.0", [[]]⟩,
    ⟨⟨5, 3, [], [], [sampleRow 4 2, sampleRow 3 1]⟩, some "4.2",
      [[], [sampleRow 3 1], [sampleRow 4 2]]⟩, by decide, by decide +kernel, ?_⟩
  refine (outbox_read_gapFree (fun row => some row.content) (fun entries _ _ => entries)
    (s := ⟨⟨5, 3, [], [], [sampleRow 4 2, sampleRow 3 1]⟩, some "0.0", [[]]⟩)
    (show run sampleStep (.initial Unit) sampleInterleaving = _ by decide)).2.2
    (sampleRow 4 2) (by decide) (by decide) [sampleRead 5, sampleRead 5] _
    (show run sampleStep _ _ = _ by decide) (by decide) ?_ (by decide +kernel)
  intro event hevent
  rcases List.mem_cons.mp hevent with rfl | hrest
  · trivial
  · rw [List.mem_singleton.mp hrest]
    trivial

/-- Two rows are stored, of the first sequence numbers that are not safe integers. -/
def unsafeNumbers : List (ReadingEvent Unit Unit) :=
  [.journal .start, .journal (.write (sampleRow 3 9007199254740992)), .journal (.commit 3),
    .journal .start, .journal (.write (sampleRow 4 9007199254740993)), .journal (.commit 4),
    sampleRead 5]

/-- Once the reader has scanned the first of them it cannot continue from its mark, and no number
of further reads scans the second. -/
theorem outbox_read_stuck :
    ∃ s, run sampleStep (.initial Unit) unsafeNumbers = some s ∧ s.journal.active = [] ∧
      sampleRow 4 9007199254740993 ∈ s.journal.rows ∧
      ∀ later s', (∀ event ∈ later, ∃ xmin q, event = .read xmin q) →
        run sampleStep s later = some s' → sampleRow 4 9007199254740993 ∉ s'.scanned := by
  have hrun : run sampleStep (.initial Unit) unsafeNumbers =
      some ⟨⟨5, 9007199254740994, [], [],
        [sampleRow 3 9007199254740992, sampleRow 4 9007199254740993]⟩,
        some "3.9007199254740992", [[sampleRow 3 9007199254740992]]⟩ := by decide
  refine ⟨_, hrun, rfl, by decide, ?_⟩
  intro later s' hreads hlater
  have hsame := Reading.run_reads_of_not_safe (Reading.inv_of_run hrun) (by decide) hreads hlater
  rw [hsame]
  decide

end OpenConditions.Federation

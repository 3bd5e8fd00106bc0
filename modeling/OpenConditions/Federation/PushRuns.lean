import OpenConditions.Federation.OutboxReader
import OpenConditions.Federation.Push

set_option relaxedAutoImplicit false
set_option autoImplicit false

/-!
# Webhook push loses nothing

The cursor of a subscription moves past an entry of its channel only when the entry was in a page
the subscriber acknowledged, or was dropped or withheld by the delivery that moved it.  Every
change of the row takes a new revision, so a delivery that finds the revision it loaded writes
into the very row it loaded; and every transaction in progress lies after the page it read, so
what is committed since is still ahead.

The cursor travels as text, and only a safe sequence number comes back from it.  A delivery from
any other cursor throws, and the cursor stays.

## Main definitions

* `Push.frontier` — the key of the last row a page moved the cursor to.
* `PageRead.Sound` — what a page on its way has of the journal.
* `Push.Inv` — the invariant of the journal, the subscription and its deliveries.

## Main results

* `Push.inv_of_run` — the invariant of every run.
* `webhook_push_complete` — every entry the cursor passes is accounted for.
-/

namespace OpenConditions.Federation

open Transition

/-! ## One page -/

/-- The rows a read from a cursor's text scans. -/
theorem readRows_wire {C F : Type} {q : OutboxQuery F} {key : ℕ ×ₗ ℕ}
    (hafter : q.after = some (.wire (encodeOutboxCursor (cursorOf key))))
    (hxid : (ofLex key).1 < xid8Bound) (rows : List (JournalRow C)) (xmin : ℕ) :
    readRows rows xmin q =
      if (ofLex key).2 ≤ Double.maxSafeInteger then
        .ok (cursorOf key, Keyset.page JournalRow.key rows (selects xmin q) key
          (pageLimit q.limit))
      else .error (.typeError ("readOutbox: malformed cursor \"" ++
        encodeOutboxCursor (cursorOf key) ++ "\"")) := by
  unfold readRows
  rw [hafter]
  by_cases hsafe : (ofLex key).2 ≤ Double.maxSafeInteger
  · have hxid' : xid8Of (cursorOf key).txid = some (ofLex key).1 := xid8Of_xidText hxid
    simp only [normalizeCursor, decodeOutboxCursor_cursorOf, if_pos hsafe]
    rw [hxid']
    simp only [cursorOf, Double.ofNat_of_safe hsafe, Prod.mk.eta, toLex_ofLex]
  · simp only [normalizeCursor, decodeOutboxCursor_cursorOf, if_neg hsafe]

section Cursor

variable {C : Type} {key : ℕ ×ₗ ℕ} {row : JournalRow C}

/-- A cursor that reads back passes the rows up to its key. -/
theorem cursorPasses_cursorOf (hxid : (ofLex key).1 < xid8Bound) :
    CursorPasses (encodeOutboxCursor (cursorOf key)) row ↔
      (ofLex key).2 ≤ Double.maxSafeInteger ∧ row.key ≤ key := by
  by_cases hsafe : (ofLex key).2 ≤ Double.maxSafeInteger
  · have hxid' : xid8Of (cursorOf key).txid = some (ofLex key).1 := xid8Of_xidText hxid
    have hkey : toLex ((ofLex key).1, (cursorOf key).seq) = key := by
      simp only [cursorOf, Double.ofNat_of_safe hsafe, Prod.mk.eta, toLex_ofLex]
    simp only [CursorPasses, decodeOutboxCursor_cursorOf, if_pos hsafe, Option.some.injEq]
    constructor
    · rintro ⟨c, txid, rfl, htxid, hle⟩
      rw [hxid', Option.some.injEq] at htxid
      rw [← htxid, hkey] at hle
      exact ⟨hsafe, hle⟩
    · rintro ⟨-, hle⟩
      exact ⟨_, _, rfl, hxid', hkey.symm ▸ hle⟩
  · simp only [CursorPasses, decodeOutboxCursor_cursorOf, hsafe, false_and, iff_false]
    rintro ⟨c, txid, hnone, -⟩
    cases hnone

end Cursor

/-! ## The invariant -/

section Invariant

variable {C E F S : Type} {rowToEntry : S → JournalRow C → Option E}
  {filterEntry : Option F → Option String → E → Option E}
  {refused : F → DeliveryMode → Option String → Bool → Bool}

/-- The key of the last row a page moved the cursor to. -/
def Push.frontier (s : Push C E F S) : ℕ ×ₗ ℕ :=
  Keyset.frontier JournalRow.key (toLex (0, 0)) (s.advances.flatMap fun a => a.read.scanned)

/-- The page of a delivery, once it is read. -/
def Stage.read? : Stage C E S → Option (PageRead C E S)
  | .loaded => none
  | .paged read => some read
  | .posted read _ => some read

variable (rowToEntry filterEntry)

/-- What a page read past `after` has of the journal: its mark and its items, and every stored row
of the channel up to its last row; every transaction in progress lies after that row. -/
structure PageRead.Sound (j : Journal C) (after : ℕ ×ₗ ℕ) (subscription : FederationSubscription F)
    (opts : DeliverWebhookOptions) (read : PageRead C E S) : Prop where
  readable : (ofLex after).2 ≤ Double.maxSafeInteger
  highWaterMark_eq : read.page.highWaterMark =
    encodeOutboxCursor (cursorOf (Keyset.frontier JournalRow.key after read.scanned))
  orderedItems_eq : read.page.orderedItems = applyRecordFilter filterEntry
    (read.scanned.filterMap (rowToEntry read.sources)) (some subscription.filter) (some opts.now)
  frontier_xid :
    (ofLex (Keyset.frontier JournalRow.key after read.scanned)).1 < j.nextXid
  frontier_active : ∀ txid ∈ j.active,
    (ofLex (Keyset.frontier JournalRow.key after read.scanned)).1 < txid
  complete : ∀ row ∈ j.rows, after < row.key →
    row.key ≤ Keyset.frontier JournalRow.key after read.scanned →
    inChannel subscription row = true → belowFloor opts row = false → row ∈ read.scanned

/-- A delivery on its way loaded an earlier revision of the row, or the row as it is; in the
latter case its page is sound. -/
structure Delivery.Inv (s : Push C E F S) (d : Delivery C E F S) : Prop where
  revision_le : d.subscription.revision ≤ s.subscription.revision
  current : d.subscription.revision = s.subscription.revision → d.subscription = s.subscription
  sound : d.subscription.revision = s.subscription.revision → ∀ read, d.stage.read? = some read →
    PageRead.Sound rowToEntry filterEntry s.journal s.frontier d.subscription d.opts read

/-- The invariant of the journal, the subscription and its deliveries. -/
structure Push.Inv (s : Push C E F S) : Prop where
  journal : s.journal.Inv
  marked : s.subscription.cursor = encodeOutboxCursor (cursorOf s.frontier)
  frontier_xid : (ofLex s.frontier).1 < s.journal.nextXid
  frontier_active : ∀ txid ∈ s.journal.active, (ofLex s.frontier).1 < txid
  accounted : ∀ row ∈ s.journal.rows, row.key ≤ s.frontier →
    ∃ a ∈ s.advances, a.Passes row ∧ a.Accounts rowToEntry filterEntry row
  deliveries : ∀ d ∈ s.deliveries, d.Inv rowToEntry filterEntry s

variable {rowToEntry filterEntry}

/-! ## What a delivery reads -/

/-- A row outside the floor and in the channel is selected once its transaction is settled. -/
theorem selects_webhookQuery (subscription : FederationSubscription F)
    (opts : DeliverWebhookOptions) (xmin : ℕ) (row : JournalRow C) :
    selects xmin (webhookQuery subscription opts) row =
      (decide (row.txid < xmin) && inChannel subscription row && !belowFloor opts row) := by
  unfold selects webhookQuery inChannel belowFloor
  cases opts.minCreatedAt with
  | none => rfl
  | some floor =>
    have hfloor : decide (floor ≤ row.createdAt) = !decide (row.createdAt < floor) := by
      rw [← decide_not]
      exact decide_eq_decide.mpr not_lt.symm
    simp only [Option.all_some, Option.any_some, hfloor]

/-- **A page that is read is sound.** Every row up to its last one is settled in the snapshot, and
every transaction in progress is not. -/
theorem Push.Inv.readPage {s : Push C E F S} (h : s.Inv rowToEntry filterEntry)
    {opts : DeliverWebhookOptions} {stage : Stage C E S} {xmin : ℕ} {sources : S}
    {read : PageRead C E S} (hxmin : ∀ txid ∈ s.journal.active, xmin ≤ txid)
    (hread : Delivery.readPage rowToEntry filterEntry ⟨s.subscription, opts, stage⟩
      s.journal.rows xmin sources = .ok read) :
    PageRead.Sound rowToEntry filterEntry s.journal s.frontier s.subscription opts read := by
  have hafter : (webhookQuery s.subscription opts).after =
      some (.wire (encodeOutboxCursor (cursorOf s.frontier))) := by
    rw [webhookQuery, h.marked]
  have hrows := readRows_wire hafter (h.frontier_xid.trans_le h.journal.nextXid_le)
    s.journal.rows xmin
  simp only [Delivery.readPage, readOutbox, hrows] at hread
  by_cases hsafe : (ofLex s.frontier).2 ≤ Double.maxSafeInteger
  · simp only [if_pos hsafe, Except.ok.injEq] at hread
    subst hread
    set page := Keyset.page JournalRow.key s.journal.rows
      (selects xmin (webhookQuery s.subscription opts)) s.frontier
      (pageLimit (webhookQuery s.subscription opts).limit) with hpage
    have hsettled : ∀ row ∈ page, row ∈ s.journal.rows ∧ row.txid < xmin := by
      intro row hrow
      obtain ⟨hmem, -, hready⟩ := Keyset.of_mem_page hrow
      rw [selects_webhookQuery, Bool.and_assoc, Bool.and_eq_true, decide_eq_true_eq] at hready
      exact ⟨hmem, hready.1⟩
    have hcases := frontier_cases s.frontier page
    exact
      { readable := hsafe
        highWaterMark_eq := by
          simp only [Keyset.frontier]
          cases page.getLast? with
          | none => rfl
          | some last => rfl
        orderedItems_eq := rfl
        frontier_xid := by
          rcases hcases with heq | ⟨last, hlast, heq⟩
          · rw [heq]
            exact h.frontier_xid
          · rw [heq]
            exact h.journal.rows_lt last (hsettled last hlast).1
        frontier_active := by
          intro txid htxid
          rcases hcases with heq | ⟨last, hlast, heq⟩
          · rw [heq]
            exact h.frontier_active txid htxid
          · rw [heq]
            exact (hsettled last hlast).2.trans_le (hxmin txid htxid)
        complete := by
          intro row hrow hahead hle hchannel hfloor
          have hready : row.txid < xmin := by
            rcases hcases with heq | ⟨last, hlast, heq⟩
            · exact absurd (heq ▸ hle) (not_le.mpr hahead)
            · have htxid : row.txid ≤ last.txid := JournalRow.txid_le_of_key_le (heq ▸ hle)
              exact htxid.trans_lt (hsettled last hlast).2
          refine Keyset.mem_page_of_le_frontier h.journal.key_nodup hrow hahead ?_ hle
          rw [selects_webhookQuery, hchannel, hfloor, decide_eq_true hready]
          rfl }
  · simp only [if_neg hsafe] at hread
    cases hread

/-- An event of the journal leaves a page sound: what is committed lies after it. -/
theorem PageRead.Sound.journal_step {j j' : Journal C} {event : JournalEvent C} {after : ℕ ×ₗ ℕ}
    {subscription : FederationSubscription F} {opts : DeliverWebhookOptions}
    {read : PageRead C E S}
    (h : PageRead.Sound rowToEntry filterEntry j after subscription opts read) (hj : j.Inv)
    (hstep : j.step event = some j') :
    PageRead.Sound rowToEntry filterEntry j' after subscription opts read := by
  obtain ⟨hxid, -, hactive⟩ := Journal.counters_step hstep
  exact
    { readable := h.readable
      highWaterMark_eq := h.highWaterMark_eq
      orderedItems_eq := h.orderedItems_eq
      frontier_xid := h.frontier_xid.trans_le hxid
      frontier_active := by
        intro txid htxid
        rcases hactive txid htxid with hold | rfl
        · exact h.frontier_active txid hold
        · exact h.frontier_xid
      complete := by
        intro row hrow hahead hle hchannel hfloor
        rcases Journal.mem_rows_step hj hstep hrow with hold | hnew
        · exact h.complete row hold hahead hle hchannel hfloor
        · exact absurd (JournalRow.txid_le_of_key_le hle)
            (not_le.mpr (h.frontier_active row.txid hnew)) }

/-! ## What a delivery writes -/

/-- A conditional update leaves the row, or finds its revision and takes the next. -/
theorem updateAt_cases (row : FederationSubscription F) (revision : ℕ)
    (set : FederationSubscription F → FederationSubscription F) :
    updateAt row revision set = (row, false) ∨
      row.revision = revision ∧
        updateAt row revision set = ({ set row with revision := row.revision + 1 }, true) := by
  unfold updateAt
  by_cases heq : row.revision = revision
  · exact Or.inr ⟨heq, if_pos heq⟩
  · exact Or.inl (if_neg heq)

/-- A delivery with nothing to push leaves the row, or moves the cursor of the row it loaded. -/
theorem settleEmpty_cases (row subscription : FederationSubscription F) (page : OutboxPage E) :
    (settleEmpty row subscription page).1 = row ∨
      row.revision = subscription.revision ∧
        (settleEmpty row subscription page).1.revision = row.revision + 1 ∧
        (settleEmpty row subscription page).1.cursor = page.highWaterMark := by
  unfold settleEmpty
  by_cases hmark : page.highWaterMark ≠ subscription.cursor
  · rw [if_pos hmark]
    rcases updateAt_cases row subscription.revision fun r =>
        { r with cursor := page.highWaterMark, pushFailures := 0 } with heq | ⟨hrev, heq⟩
    · rw [heq]
      exact Or.inl rfl
    · rw [heq]
      exact Or.inr ⟨hrev, rfl, rfl⟩
  · rw [if_neg hmark]
    exact Or.inl rfl

/-- A delivery whose POST is over leaves the row, takes a revision of it with the cursor where it
was, or, acknowledged, moves the cursor of the row it loaded. -/
theorem settlePost_cases (opts : DeliverWebhookOptions) (row subscription : FederationSubscription F)
    (page : OutboxPage E) (answer : PostAnswer) :
    (settlePost opts row subscription page answer).1 = row ∨
      row.revision = subscription.revision ∧
        (settlePost opts row subscription page answer).1.revision = row.revision + 1 ∧
        ((settlePost opts row subscription page answer).1.cursor = row.cursor ∨
          answer.isAck = true ∧
          (settlePost opts row subscription page answer).1.cursor = page.highWaterMark) := by
  unfold settlePost
  by_cases hdefer : answer.isDeferral = true
  · rw [if_pos hdefer]
    exact Or.inl rfl
  rw [if_neg hdefer]
  by_cases hack : answer.isAck = true
  · rw [if_pos hack]
    rcases updateAt_cases row subscription.revision fun r =>
        { r with cursor := page.highWaterMark, pushFailures := 0, status := .active }
      with heq | ⟨hrev, heq⟩
    · rw [heq]
      exact Or.inl rfl
    · rw [heq]
      exact Or.inr ⟨hrev, rfl, Or.inr ⟨hack, rfl⟩⟩
  · rw [if_neg hack]
    rcases updateAt_cases row subscription.revision fun r =>
        { r with
          pushFailures := subscription.pushFailures + 1
          status :=
            if decide (opts.failureThreshold.getD pushFailureThreshold ≤
                subscription.pushFailures + 1) then .pushDisabled
            else subscription.status } with heq | ⟨hrev, heq⟩
    · exact Or.inl (by simp only [heq])
    · refine Or.inr ⟨hrev, ?_⟩
      simp only [heq, true_or, and_self]

/-- **The end of a delivery.** The row is left, or taken to its next revision with the cursor where
it was; or the row is the one the delivery loaded, and the cursor moves to the mark of its page,
which was acknowledged if there was anything to push. -/
theorem Delivery.settle_cases {d : Delivery C E F S} {row row' : FederationSubscription F}
    {advance : Option (Advance C E F S)} (h : d.settle row = some (row', advance)) :
    (advance = none ∧ row'.cursor = row.cursor ∧
        (row' = row ∨ row'.revision = row.revision + 1)) ∨
      ∃ read answer, d.stage.read? = some read ∧
        advance = some ⟨d.subscription, d.opts, read, answer⟩ ∧
        row.revision = d.subscription.revision ∧ row'.revision = row.revision + 1 ∧
        row'.cursor = read.page.highWaterMark ∧
        (read.page.orderedItems = [] ∨ ∃ ack, answer = some ack ∧ ack.isAck = true) := by
  unfold Delivery.settle at h
  cases hstage : d.stage with
  | loaded =>
    rw [hstage] at h
    cases h
  | paged read =>
    simp only [hstage] at h
    split_ifs at h with hempty hsame
    · cases h
      refine Or.inl ⟨rfl, hsame, ?_⟩
      exact (settleEmpty_cases row d.subscription read.page).imp id fun h => h.2.1
    · cases h
      rcases settleEmpty_cases row d.subscription read.page with heq | ⟨hrev, hnext, hcursor⟩
      · exact absurd (congrArg FederationSubscription.cursor heq) hsame
      · exact Or.inr ⟨read, none, rfl, rfl, hrev, hnext, hcursor,
          Or.inl (List.isEmpty_iff.mp hempty)⟩
  | posted read answer =>
    simp only [hstage] at h
    split_ifs at h with hsame
    · cases h
      refine Or.inl ⟨rfl, hsame, ?_⟩
      exact (settlePost_cases d.opts row d.subscription read.page answer).imp id fun h => h.2.1
    · cases h
      rcases settlePost_cases d.opts row d.subscription read.page answer with
        heq | ⟨hrev, hnext, hcursor | ⟨hack, hcursor⟩⟩
      · exact absurd (congrArg FederationSubscription.cursor heq) hsame
      · exact absurd hcursor hsame
      · exact Or.inr ⟨read, some answer, rfl, rfl, hrev, hnext, hcursor,
          Or.inr ⟨answer, rfl, hack⟩⟩

/-- **A sound page accounts for what it passes.** A row of the channel up to its last one was
scanned; its item, if the filter keeps it, was among those acknowledged. -/
theorem PageRead.Sound.accounts {j : Journal C} {after : ℕ ×ₗ ℕ}
    {subscription : FederationSubscription F} {opts : DeliverWebhookOptions}
    {read : PageRead C E S} {answer : Option PostAnswer} {row : JournalRow C}
    (h : PageRead.Sound rowToEntry filterEntry j after subscription opts read)
    (hack : read.page.orderedItems = [] ∨ ∃ ack, answer = some ack ∧ ack.isAck = true)
    (hrow : row ∈ j.rows) (hahead : after < row.key)
    (hle : row.key ≤ Keyset.frontier JournalRow.key after read.scanned) :
    Advance.Accounts rowToEntry filterEntry ⟨subscription, opts, read, answer⟩ row := by
  cases hchannel : inChannel subscription row with
  | false => exact .notEligible hchannel
  | true =>
    cases hfloor : belowFloor opts row with
    | true => exact .belowFloor hfloor
    | false =>
      have hscanned := h.complete row hrow hahead hle hchannel hfloor
      cases hentry : rowToEntry read.sources row with
      | none => exact .withheld hentry
      | some entry =>
        cases hitem : filterEntry (some subscription.filter) (some opts.now) entry with
        | none => exact .dropped entry hentry hitem
        | some item =>
          have hmem : item ∈ read.page.orderedItems := by
            rw [h.orderedItems_eq]
            exact List.mem_filterMap.mpr
              ⟨entry, List.mem_filterMap.mpr ⟨row, hscanned, hentry⟩, hitem⟩
          rcases hack with hempty | ⟨ack, hans, hack⟩
          · rw [hempty] at hmem
            cases hmem
          · exact .acknowledged entry item ack hentry hitem hmem hans hack

/-! ## Every event keeps the invariant -/

/-- A delivery that loaded the row before a change of it is of an earlier revision. -/
theorem Delivery.Inv.stale {s s' : Push C E F S} {d : Delivery C E F S}
    (h : d.Inv rowToEntry filterEntry s)
    (hrev : s'.subscription.revision = s.subscription.revision + 1) :
    d.Inv rowToEntry filterEntry s' := by
  have hlt : d.subscription.revision < s'.subscription.revision := by
    have := h.revision_le
    omega
  exact ⟨hlt.le, fun heq => absurd heq hlt.ne, fun heq => absurd heq hlt.ne⟩

/-- Saving a delivery keeps the invariant.

**Proof sketch.** When the cursor moves, the row is the one the delivery loaded, so its page is
sound past the frontier.  A stored row up to the new frontier is accounted for already, or by this
page.  All other deliveries are of an earlier revision now. -/
theorem Push.Inv.save {s s' : Push C E F S} {i : ℕ} (h : s.Inv rowToEntry filterEntry)
    (hstep : s.step rowToEntry filterEntry refused (.save i) = some s') :
    s'.Inv rowToEntry filterEntry := by
  simp only [Push.step] at hstep
  cases hd : s.deliveries[i]? with
  | none =>
    rw [hd] at hstep
    cases hstep
  | some d =>
    simp only [hd] at hstep
    have hdinv := h.deliveries d (List.mem_of_getElem? hd)
    cases hsettle : d.settle s.subscription with
    | none =>
      rw [hsettle] at hstep
      cases hstep
    | some result =>
      obtain ⟨row', advance⟩ := result
      simp only [hsettle, Option.some.injEq] at hstep
      subst hstep
      rcases Delivery.settle_cases hsettle with
        ⟨rfl, hcursor, hrow'⟩ | ⟨read, answer, hread, rfl, hrev, hnext, hcursor, hack⟩
      · have hfrontier : Push.frontier { s with
            subscription := row', deliveries := s.deliveries.eraseIdx i,
            advances := s.advances ++ (none : Option (Advance C E F S)).toList } = s.frontier := by
          simp [Push.frontier]
        refine ⟨h.journal, by rw [hfrontier]; exact hcursor.trans h.marked,
          by rw [hfrontier]; exact h.frontier_xid, by rw [hfrontier]; exact h.frontier_active,
          ?_, ?_⟩
        · intro row hrow hle
          rw [hfrontier] at hle
          obtain ⟨a, ha, hacc⟩ := h.accounted row hrow hle
          exact ⟨a, List.mem_append_left _ ha, hacc⟩
        · intro e he
          have heinv := h.deliveries e (List.mem_of_mem_eraseIdx he)
          rcases hrow' with rfl | hnext
          · refine ⟨heinv.revision_le, heinv.current, fun heq r hr => ?_⟩
            rw [hfrontier]
            exact heinv.sound heq r hr
          · exact heinv.stale hnext
      · have hsub : d.subscription = s.subscription := hdinv.current hrev.symm
        have hsound := hdinv.sound hrev.symm read hread
        have hfrontier : Push.frontier { s with
            subscription := row', deliveries := s.deliveries.eraseIdx i,
            advances := s.advances ++
              (some (⟨d.subscription, d.opts, read, answer⟩ : Advance C E F S)).toList } =
            Keyset.frontier JournalRow.key s.frontier read.scanned := by
          simp [Push.frontier, frontier_append]
        refine ⟨h.journal, by rw [hfrontier]; exact hcursor.trans hsound.highWaterMark_eq,
          by rw [hfrontier]; exact hsound.frontier_xid,
          by rw [hfrontier]; exact hsound.frontier_active, ?_, ?_⟩
        · intro row hrow hle
          rw [hfrontier] at hle
          rcases le_or_gt row.key s.frontier with hold | hnew
          · obtain ⟨a, ha, hacc⟩ := h.accounted row hrow hold
            exact ⟨a, List.mem_append_left _ ha, hacc⟩
          · refine ⟨_, List.mem_append_right _ (List.mem_singleton_self _), ⟨?_, ?_⟩,
              hsound.accounts hack hrow hnew hle⟩
            · rw [hsub, h.marked,
                cursorPasses_cursorOf (h.frontier_xid.trans_le h.journal.nextXid_le)]
              exact fun hpass => absurd hpass.2 (not_le.mpr hnew)
            · rcases frontier_cases s.frontier read.scanned with heq | ⟨last, hlast, heq⟩
              · exact absurd (heq ▸ hle) (not_le.mpr hnew)
              · exact ⟨last, hlast, heq ▸ hle⟩
        · intro e he
          exact (h.deliveries e (List.mem_of_mem_eraseIdx he)).stale hnext

/-- A change of the subscription leaves it, or takes its next revision with the cursor where it
is. -/
theorem updateSubscription_cases (refused : F → DeliveryMode → Option String → Bool → Bool)
    (current : FederationSubscription F) (patch : UpdateSubscriptionInput F) :
    updateSubscription refused current patch = current ∨
      (updateSubscription refused current patch).revision = current.revision + 1 ∧
        (updateSubscription refused current patch).cursor = current.cursor := by
  simp only [updateSubscription]
  split_ifs
  · exact Or.inl rfl
  · exact Or.inr ⟨rfl, rfl⟩

/-- The invariant of other deliveries, in the place of those there were. -/
theorem Push.Inv.withDeliveries {s : Push C E F S} (h : s.Inv rowToEntry filterEntry)
    {deliveries : List (Delivery C E F S)}
    (hdel : ∀ d ∈ deliveries, d.Inv rowToEntry filterEntry s) :
    Push.Inv rowToEntry filterEntry { s with deliveries := deliveries } :=
  ⟨h.journal, h.marked, h.frontier_xid, h.frontier_active, h.accounted, fun d hd =>
    ⟨(hdel d hd).revision_le, (hdel d hd).current, (hdel d hd).sound⟩⟩

/-- **Every event keeps the invariant.** -/
theorem Push.Inv.step {s s' : Push C E F S} {event : PushEvent C F S}
    (h : s.Inv rowToEntry filterEntry)
    (hstep : s.step rowToEntry filterEntry refused event = some s') :
    s'.Inv rowToEntry filterEntry := by
  cases event with
  | journal event =>
    obtain ⟨j', hj', rfl⟩ := Option.map_eq_some_iff.mp hstep
    obtain ⟨hxid, -, hactive⟩ := Journal.counters_step hj'
    refine ⟨h.journal.step hj', h.marked, h.frontier_xid.trans_le hxid, ?_, ?_, ?_⟩
    · intro txid htxid
      rcases hactive txid htxid with hold | rfl
      · exact h.frontier_active txid hold
      · exact h.frontier_xid
    · intro row hrow hle
      rcases Journal.mem_rows_step h.journal hj' hrow with hold | hnew
      · exact h.accounted row hold hle
      · exact absurd (JournalRow.txid_le_of_key_le hle)
          (not_le.mpr (h.frontier_active row.txid hnew))
    · intro d hd
      have hdinv := h.deliveries d hd
      exact ⟨hdinv.revision_le, hdinv.current, fun heq read hread =>
        (hdinv.sound heq read hread).journal_step h.journal hj'⟩
  | patch patch =>
    cases hstep
    rcases updateSubscription_cases refused s.subscription patch with
      heq | ⟨hnext, hcursor⟩
    · rw [heq]
      exact h
    · exact ⟨h.journal, hcursor.trans h.marked, h.frontier_xid, h.frontier_active, h.accounted,
        fun d hd => (h.deliveries d hd).stale hnext⟩
  | load opts =>
    simp only [Push.step] at hstep
    split_ifs at hstep with hactive
    · cases hstep
      refine h.withDeliveries fun d hd => ?_
      rcases List.mem_append.mp hd with hold | hnew
      · exact h.deliveries d hold
      · rw [List.mem_singleton.mp hnew]
        exact ⟨le_rfl, fun _ => rfl, fun _ read hread => by cases hread⟩
    · cases hstep
      exact h
  | read i xmin sources =>
    simp only [Push.step] at hstep
    split at hstep
    · next subscription opts hd =>
      have hdinv := h.deliveries _ (List.mem_of_getElem? hd)
      split_ifs at hstep with hxmin
      cases hread : Delivery.readPage rowToEntry filterEntry ⟨subscription, opts, .loaded⟩
          s.journal.rows xmin sources with
      | ok read =>
        simp only [hread, Option.some.injEq] at hstep
        subst hstep
        refine h.withDeliveries fun d hd => ?_
        rcases List.mem_or_eq_of_mem_set hd with hold | rfl
        · exact h.deliveries d hold
        · refine ⟨hdinv.revision_le, hdinv.current, fun heq r hr => ?_⟩
          have hsub : subscription = s.subscription := hdinv.current heq
          cases hr
          subst hsub
          exact h.readPage hxmin hread
      | error e =>
        simp only [hread, Option.some.injEq] at hstep
        subst hstep
        exact h.withDeliveries fun d hd => h.deliveries d (List.mem_of_mem_eraseIdx hd)
    · cases hstep
  | post i answer =>
    simp only [Push.step] at hstep
    split at hstep
    · next subscription opts read hd =>
      have hdinv := h.deliveries _ (List.mem_of_getElem? hd)
      split_ifs at hstep with hempty
      cases hstep
      refine h.withDeliveries fun d hd => ?_
      rcases List.mem_or_eq_of_mem_set hd with hold | rfl
      · exact h.deliveries d hold
      · exact ⟨hdinv.revision_le, hdinv.current, fun heq r hr => hdinv.sound heq r hr⟩
    · cases hstep
  | save i => exact h.save hstep
  | crash i =>
    cases hstep
    exact h.withDeliveries fun d hd => h.deliveries d (List.mem_of_mem_eraseIdx hd)

/-- The invariant holds of a new subscription. -/
theorem Push.inv_initial {noFilter : F} {input : CreateSubscriptionInput F} :
    (Push.initial (createSubscription noFilter input) : Push C E F S).Inv rowToEntry
      filterEntry where
  journal := (Reading.inv_initial (C := C)).journal
  marked := show "0.0" = encodeOutboxCursor (cursorOf (toLex (0, 0))) by decide
  frontier_xid := show 0 < 3 by decide
  frontier_active := by simp [Push.initial, Journal.initial]
  accounted := by simp [Push.initial, Journal.initial]
  deliveries := by simp [Push.initial]

/-- The invariant holds in every run. -/
theorem Push.inv_of_run {noFilter : F} {input : CreateSubscriptionInput F} {s : Push C E F S}
    {events : List (PushEvent C F S)}
    (hrun : run (Push.step rowToEntry filterEntry refused)
      (.initial (createSubscription noFilter input)) events = some s) :
    s.Inv rowToEntry filterEntry :=
  run_invariant (fun _ _ _ h hstep => h.step hstep) Push.inv_initial hrun

/-! ## A cursor that does not read back -/

/-- An event leaves a cursor that does not read back where it is. -/
theorem Push.Inv.cursor_step {s s' : Push C E F S} {event : PushEvent C F S}
    (h : s.Inv rowToEntry filterEntry)
    (hstuck : decodeOutboxCursor s.subscription.cursor = none)
    (hstep : s.step rowToEntry filterEntry refused event = some s') :
    s'.subscription.cursor = s.subscription.cursor := by
  cases event with
  | journal event =>
    obtain ⟨j', -, rfl⟩ := Option.map_eq_some_iff.mp hstep
    rfl
  | patch patch =>
    cases hstep
    rcases updateSubscription_cases refused s.subscription patch with
      heq | ⟨-, hcursor⟩
    · rw [heq]
    · exact hcursor
  | load opts =>
    simp only [Push.step] at hstep
    split_ifs at hstep <;> cases hstep <;> rfl
  | read i xmin sources =>
    simp only [Push.step] at hstep
    split at hstep
    · split_ifs at hstep
      split at hstep <;> cases hstep <;> rfl
    · cases hstep
  | post i answer =>
    simp only [Push.step] at hstep
    split at hstep
    · split_ifs at hstep
      cases hstep
      rfl
    · cases hstep
  | save i =>
    simp only [Push.step] at hstep
    split at hstep
    · next d hd =>
      split at hstep
      · next row advance hsettle =>
        cases hstep
        rcases Delivery.settle_cases hsettle with
          ⟨-, hcursor, -⟩ | ⟨read, answer, hread, -, hrev, -⟩
        · exact hcursor
        · have hsound := (h.deliveries d (List.mem_of_getElem? hd)).sound hrev.symm read hread
          rw [h.marked, decodeOutboxCursor_cursorOf, if_pos hsound.readable] at hstuck
          cases hstuck
      · cases hstep
    · cases hstep
  | crash i =>
    cases hstep
    rfl

/-! ## Every entry is accounted for -/

variable (rowToEntry filterEntry refused)

/-- **Webhook push loses nothing.** In every run of writers, changes of the subscription and
deliveries, whatever their outcomes, every stored row up to the last one the cursor was moved to
is accounted for by the page that moved the cursor past it: it is not of the channel or below the
floor, it was withheld, the filter dropped it, or its item was in a page that was acknowledged.  A
cursor that reads back passes those rows and no others; one that does not stays where it is. -/
theorem webhook_push_complete {noFilter : F} {input : CreateSubscriptionInput F}
    {s : Push C E F S} {events : List (PushEvent C F S)}
    (hrun : run (Push.step rowToEntry filterEntry refused)
      (.initial (createSubscription noFilter input)) events = some s) :
    (∀ row ∈ s.journal.rows, row.key ≤ s.frontier →
      ∃ a ∈ s.advances, a.Passes row ∧ a.Accounts rowToEntry filterEntry row) ∧
    (∀ row : JournalRow C, CursorPasses s.subscription.cursor row → row.key ≤ s.frontier) ∧
    (decodeOutboxCursor s.subscription.cursor = none → ∀ later s',
      run (Push.step rowToEntry filterEntry refused) s later = some s' →
        s'.subscription.cursor = s.subscription.cursor) := by
  have h : s.Inv rowToEntry filterEntry := Push.inv_of_run hrun
  refine ⟨h.accounted, fun row hpass => ?_, fun hstuck later s' hlater => ?_⟩
  · rw [h.marked, cursorPasses_cursorOf (h.frontier_xid.trans_le h.journal.nextXid_le)] at hpass
    exact hpass.2
  · have hboth : s'.Inv rowToEntry filterEntry ∧
        s'.subscription.cursor = s.subscription.cursor := by
      refine run_invariant (I := fun t => t.Inv rowToEntry filterEntry ∧
        t.subscription.cursor = s.subscription.cursor) (fun t _ t' ht hstep => ?_) ⟨h, rfl⟩ hlater
      exact ⟨ht.1.step hstep, (ht.1.cursor_step (ht.2 ▸ hstuck) hstep).trans ht.2⟩
    exact hboth.2

end Invariant

/-! ## Two runs -/

/-- The options of a delivery of one row a page. -/
def sampleOptions : DeliverWebhookOptions :=
  ⟨"/peer/outbox", "2026-01-01T00:00:00.000Z", none, some 1, none⟩

/-- A webhook subscription to the whole channel. -/
def sampleInput : CreateSubscriptionInput Unit :=
  ⟨none, some .webhook, some "https://peer.example/inbox", some false⟩

/-- The journal, the subscription and its deliveries, with entries that are sequence numbers. -/
def samplePush : Push Unit ℕ Unit Unit → PushEvent Unit Unit Unit → Option (Push Unit ℕ Unit Unit) :=
  Push.step (fun _ row => some row.seq) (fun _ _ entry => some entry) fun _ _ _ _ => false

/-- Two rows are stored, and the first of them is pushed and acknowledged. -/
def samplePushes (first second : ℕ) : List (PushEvent Unit Unit Unit) :=
  [.journal .start, .journal (.write (sampleRow 3 first)), .journal (.write (sampleRow 3 second)),
    .journal (.commit 3), .load sampleOptions, .read 0 4 (), .post 0 (.answered 200 none), .save 0]

/-- What they leave: the cursor at the first row, and its page. -/
def samplePushed (first second : ℕ) (mark : String) : Push Unit ℕ Unit Unit where
  journal := ⟨4, second + 1, [], [], [sampleRow 3 first, sampleRow 3 second]⟩
  subscription := { createSubscription () sampleInput with cursor := mark, revision := 1 }
  deliveries := []
  advances := [⟨createSubscription () sampleInput, sampleOptions,
    ⟨(), [sampleRow 3 first], ⟨"/peer/outbox", some ("/peer/outbox?after=" ++ mark), mark, false,
      [first]⟩⟩, some (.answered 200 none)⟩]

/-- The row the cursor has passed was acknowledged. -/
theorem webhook_push_complete_sample :
    run samplePush (.initial (createSubscription () sampleInput)) (samplePushes 1 2) =
        some (samplePushed 1 2 "3.1") ∧
      ∃ a ∈ (samplePushed 1 2 "3.1").advances, a.Passes (sampleRow 3 1) ∧
        a.Accounts (fun _ row => some row.seq) (fun _ _ entry => some entry) (sampleRow 3 1) := by
  have hrun : run samplePush (.initial (createSubscription () sampleInput)) (samplePushes 1 2) =
      some (samplePushed 1 2 "3.1") := by decide
  exact ⟨hrun, (webhook_push_complete (fun _ row => some row.seq) (fun _ _ entry => some entry)
    (fun _ _ _ _ => false) hrun).1 (sampleRow 3 1) (by decide) (by decide)⟩

/-- The row after an acknowledged one has the first sequence number the acknowledged one's rounds
up to: the cursor stands on it, though it was in no page. -/
theorem webhook_push_rounds_up :
    run samplePush (.initial (createSubscription () sampleInput))
        (samplePushes 9007199254740995 9007199254740996) =
        some (samplePushed 9007199254740995 9007199254740996 "3.9007199254740996") ∧
      sampleRow 3 9007199254740996 ∈
        (samplePushed 9007199254740995 9007199254740996 "3.9007199254740996").journal.rows ∧
      ∀ a ∈ (samplePushed 9007199254740995 9007199254740996 "3.9007199254740996").advances,
        inChannel a.subscription (sampleRow 3 9007199254740996) = true ∧
        belowFloor a.opts (sampleRow 3 9007199254740996) = false ∧
        ¬a.Accounts (fun _ row => some row.seq) (fun _ _ entry => some entry)
          (sampleRow 3 9007199254740996) := by
  refine ⟨by decide, by decide, fun a ha => ?_⟩
  rw [List.mem_singleton.mp ha]
  refine ⟨rfl, rfl, fun hacc => ?_⟩
  cases hacc with
  | notEligible h => cases h
  | belowFloor h => cases h
  | withheld h => cases h
  | dropped entry h hfilter => cases hfilter
  | acknowledged entry item answer h hfilter hmem =>
    cases h
    cases hfilter
    exact absurd hmem (by decide)

end OpenConditions.Federation

import OpenConditions.Federation.Outbox

set_option relaxedAutoImplicit false
set_option autoImplicit false

/-!
# Webhook push

The delivery of outbox pages to a subscriber's inbox (`packages/federation/src/push.ts`) and the
subscription it works on (`packages/federation/src/subscriptions.ts`).  A delivery loads the row of
the subscription, reads one page past its cursor, posts what the filter keeps of it, and writes
what came of it back under the row's revision; in between, writers commit, peers change the
subscription, other deliveries run, and the process may stop.

## Main definitions

* `createSubscription`, `updateSubscription` — a subscription, and a change of it.
* `webhookQuery`, `settleEmpty`, `settlePost` — the statements of a delivery.
* `Push.step` — the journal, the subscription and the deliveries on their way.

## Implementation notes

The row of one subscription is modelled.  When a cycle attempts it is left open: it may at any
time, so neither the pause an inbox asked for nor a peer's being blocked is modelled.  What an
entry is of a row under the sources a read sees, and what a filter makes of an entry at an
instant, are parameters, as is what a change of a subscription is refused for.
-/

namespace OpenConditions.Federation

/-! ## The subscription -/

/-- How a subscriber is served. -/
inductive DeliveryMode where
  | pull | webhook | sse
  deriving DecidableEq, Repr

/-- Whether a subscription is pushed. -/
inductive SubscriptionStatus where
  | active | pushDisabled
  deriving DecidableEq, Repr

/-- The row of a subscription. -/
structure FederationSubscription (F : Type) where
  filter : F
  deliveryMode : DeliveryMode
  inboxUrl : Option String
  cursor : String
  priorityOnly : Bool
  pushFailures : ℕ
  revision : ℕ
  status : SubscriptionStatus
  deriving DecidableEq

/-- What a peer asks of a new subscription. -/
structure CreateSubscriptionInput (F : Type) where
  filter : Option F
  deliveryMode : Option DeliveryMode
  inboxUrl : Option String
  priorityOnly : Option Bool

/-- What a peer changes of its subscription; an inbox may be set to none. -/
structure UpdateSubscriptionInput (F : Type) where
  filter : Option F
  deliveryMode : Option DeliveryMode
  inboxUrl : Option (Option String)
  priorityOnly : Option Bool

section Subscription

variable {F : Type}

/-- A new subscription, at the start of the journal. -/
def createSubscription (noFilter : F) (input : CreateSubscriptionInput F) :
    FederationSubscription F where
  filter := input.filter.getD noFilter
  deliveryMode := input.deliveryMode.getD .pull
  inboxUrl := input.inboxUrl
  cursor := "0.0"
  priorityOnly := input.priorityOnly.getD true
  pushFailures := 0
  revision := 0
  status := .active

/-- A change of a subscription, when the merged shape is not refused.  It is pushed again from
where delivery stood. -/
def updateSubscription (refused : F → DeliveryMode → Option String → Bool → Bool)
    (current : FederationSubscription F) (patch : UpdateSubscriptionInput F) :
    FederationSubscription F :=
  let filter := patch.filter.getD current.filter
  let deliveryMode := patch.deliveryMode.getD current.deliveryMode
  let inboxUrl := patch.inboxUrl.getD current.inboxUrl
  let priorityOnly := patch.priorityOnly.getD current.priorityOnly
  if refused filter deliveryMode inboxUrl priorityOnly then current
  else
    { current with
      filter := filter
      deliveryMode := deliveryMode
      inboxUrl := inboxUrl
      priorityOnly := priorityOnly
      status := .active
      pushFailures := 0
      revision := current.revision + 1 }

/-- An `UPDATE … WHERE revision = …` of the row: the row after it, and whether it matched. -/
def updateAt (row : FederationSubscription F) (revision : ℕ)
    (set : FederationSubscription F → FederationSubscription F) :
    FederationSubscription F × Bool :=
  if row.revision = revision then ({ set row with revision := row.revision + 1 }, true)
  else (row, false)

end Subscription

/-! ## One delivery -/

/-- The consecutive failures that stop the push. -/
def pushFailureThreshold : ℕ := 5

/-- The options of a delivery. -/
structure DeliverWebhookOptions where
  partOf : String
  now : String
  failureThreshold : Option ℕ
  limit : Option ℤ
  minCreatedAt : Option Instant
  deriving DecidableEq

/-- What the POST came to: no answer, or a status and its `retry-after` header. -/
inductive PostAnswer where
  | unanswered
  | answered (httpStatus : ℕ) (retryAfter : Option String)
  deriving DecidableEq

/-- The subscriber acknowledged the page. -/
def PostAnswer.isAck : PostAnswer → Bool
  | .unanswered => false
  | .answered httpStatus _ => decide (200 ≤ httpStatus) && decide (httpStatus < 300)

/-- The inbox asked to come back later. -/
def PostAnswer.isDeferral : PostAnswer → Bool
  | .unanswered => false
  | .answered httpStatus retryAfter => httpStatus == 429 || (httpStatus == 503 && retryAfter.isSome)

/-- What a delivery returns. -/
inductive DeliverWebhookOutcome where
  | obsolete
  | delivered (delivered : ℕ) (advancedTo : String)
  | empty (advancedTo : String)
  | deferred
  | failed (pushFailures : ℕ)
  | disabled (pushFailures : ℕ)
  deriving DecidableEq

section Delivery

variable {F E : Type}

/-- The page a delivery reads. -/
def webhookQuery (subscription : FederationSubscription F) (opts : DeliverWebhookOptions) :
    OutboxQuery F where
  after := some (.wire subscription.cursor)
  filter := some subscription.filter
  priorityOnly := subscription.priorityOnly
  minCreatedAt := opts.minCreatedAt
  limit := opts.limit
  partOf := some opts.partOf
  nextParams := none
  now := some opts.now

/-- What a delivery with nothing to push writes into the row. -/
def settleEmpty (row subscription : FederationSubscription F) (page : OutboxPage E) :
    FederationSubscription F × DeliverWebhookOutcome :=
  if page.highWaterMark ≠ subscription.cursor then
    match updateAt row subscription.revision fun r =>
        { r with cursor := page.highWaterMark, pushFailures := 0 } with
    | (row', true) => (row', .empty page.highWaterMark)
    | (row', false) => (row', .obsolete)
  else (row, .empty page.highWaterMark)

/-- What a delivery whose POST is over writes into the row. -/
def settlePost (opts : DeliverWebhookOptions) (row subscription : FederationSubscription F)
    (page : OutboxPage E) (answer : PostAnswer) :
    FederationSubscription F × DeliverWebhookOutcome :=
  if answer.isDeferral then (row, .deferred)
  else if answer.isAck then
    match updateAt row subscription.revision fun r =>
        { r with cursor := page.highWaterMark, pushFailures := 0, status := .active } with
    | (row', true) => (row', .delivered page.orderedItems.length page.highWaterMark)
    | (row', false) => (row', .obsolete)
  else
    let pushFailures := subscription.pushFailures + 1
    let disabled := decide (opts.failureThreshold.getD pushFailureThreshold ≤ pushFailures)
    match updateAt row subscription.revision fun r =>
        { r with
          pushFailures := pushFailures
          status := if disabled then .pushDisabled else subscription.status } with
    | (row', true) => (row', if disabled then .disabled pushFailures else .failed pushFailures)
    | (row', false) => (row', .obsolete)

end Delivery

/-! ## Deliveries on their way -/

/-- What a delivery has read: the sources the snapshot saw, the rows it scanned, and the page. -/
structure PageRead (C E S : Type) where
  sources : S
  scanned : List (JournalRow C)
  page : OutboxPage E
  deriving DecidableEq

/-- How far a delivery has come. -/
inductive Stage (C E S : Type) where
  | loaded
  | paged (read : PageRead C E S)
  | posted (read : PageRead C E S) (answer : PostAnswer)
  deriving DecidableEq

/-- A delivery on its way, with the row of the subscription as it was loaded. -/
structure Delivery (C E F S : Type) where
  subscription : FederationSubscription F
  opts : DeliverWebhookOptions
  stage : Stage C E S
  deriving DecidableEq

/-- A page that moved the cursor: the delivery's subscription and options, what it read, and what
its POST came to, if anything was posted. -/
structure Advance (C E F S : Type) where
  subscription : FederationSubscription F
  opts : DeliverWebhookOptions
  read : PageRead C E S
  answer : Option PostAnswer
  deriving DecidableEq

/-- The journal, the subscription, the deliveries on their way, and the pages that moved the
cursor so far. -/
structure Push (C E F S : Type) where
  journal : Journal C
  subscription : FederationSubscription F
  deliveries : List (Delivery C E F S)
  advances : List (Advance C E F S)
  deriving DecidableEq

/-- A new subscription, and an empty journal.  The journal may fill before the first delivery. -/
def Push.initial {C E F S : Type} (subscription : FederationSubscription F) : Push C E F S :=
  ⟨.initial C, subscription, [], []⟩

/-- What happens to them. -/
inductive PushEvent (C F S : Type) where
  | journal (event : JournalEvent C)
  /-- The subscription is changed. -/
  | patch (patch : UpdateSubscriptionInput F)
  /-- A cycle loads the row of the subscription. -/
  | load (opts : DeliverWebhookOptions)
  /-- A delivery reads its page, in a snapshot with this `xmin` and these sources. -/
  | read (i : ℕ) (xmin : ℕ) (sources : S)
  /-- A delivery posts its page. -/
  | post (i : ℕ) (answer : PostAnswer)
  /-- A delivery writes into the row what it came to. -/
  | save (i : ℕ)
  /-- A delivery stops where it is. -/
  | crash (i : ℕ)

section Step

variable {C E F S : Type} (rowToEntry : S → JournalRow C → Option E)
  (filterEntry : Option F → Option String → E → Option E)
  (refused : F → DeliveryMode → Option String → Bool → Bool)

/-- What the filter keeps of a page's entries, and as what. -/
def applyRecordFilter (entries : List E) (filter : Option F) (now : Option String) : List E :=
  entries.filterMap (filterEntry filter now)

/-- The page of a delivery, and the rows it scans. -/
def Delivery.readPage (d : Delivery C E F S) (rows : List (JournalRow C)) (xmin : ℕ)
    (sources : S) : Except OutboxError (PageRead C E S) :=
  let q := webhookQuery d.subscription d.opts
  match readRows rows xmin q,
      readOutbox (rowToEntry sources) (applyRecordFilter filterEntry) rows xmin q with
  | .ok (_, scanned), .ok page => .ok ⟨sources, scanned, page⟩
  | .error e, _ => .error e
  | _, .error e => .error e

/-- The end of a delivery: the row it leaves, and the page when it moved the cursor. -/
def Delivery.settle (d : Delivery C E F S) (row : FederationSubscription F) :
    Option (FederationSubscription F × Option (Advance C E F S)) :=
  match d.stage with
  | .loaded => none
  | .paged read =>
    if read.page.orderedItems.isEmpty then
      let row' := (settleEmpty row d.subscription read.page).1
      some (row', if row'.cursor = row.cursor then none
        else some ⟨d.subscription, d.opts, read, none⟩)
    else none
  | .posted read answer =>
    let row' := (settlePost d.opts row d.subscription read.page answer).1
    some (row', if row'.cursor = row.cursor then none
      else some ⟨d.subscription, d.opts, read, some answer⟩)

/-- One event.  A read that throws ends its delivery. -/
def Push.step (s : Push C E F S) : PushEvent C F S → Option (Push C E F S)
  | .journal event => (s.journal.step event).map fun j => { s with journal := j }
  | .patch patch => some { s with subscription := updateSubscription refused s.subscription patch }
  | .load opts =>
    if s.subscription.deliveryMode = .webhook ∧ s.subscription.status = .active then
      some { s with deliveries := s.deliveries ++ [⟨s.subscription, opts, .loaded⟩] }
    else some s
  | .read i xmin sources =>
    match s.deliveries[i]? with
    | some ⟨subscription, opts, .loaded⟩ =>
      if ∀ txid ∈ s.journal.active, xmin ≤ txid then
        match Delivery.readPage rowToEntry filterEntry ⟨subscription, opts, .loaded⟩
            s.journal.rows xmin sources with
        | .ok read =>
          some { s with deliveries := s.deliveries.set i ⟨subscription, opts, .paged read⟩ }
        | .error _ => some { s with deliveries := s.deliveries.eraseIdx i }
      else none
    | _ => none
  | .post i answer =>
    match s.deliveries[i]? with
    | some ⟨subscription, opts, .paged read⟩ =>
      if read.page.orderedItems.isEmpty then none
      else
        some { s with
          deliveries := s.deliveries.set i ⟨subscription, opts, .posted read answer⟩ }
    | _ => none
  | .save i =>
    match s.deliveries[i]? with
    | some d =>
      match d.settle s.subscription with
      | some (row, advance) =>
        some { s with
          subscription := row
          deliveries := s.deliveries.eraseIdx i
          advances := s.advances ++ advance.toList }
      | none => none
    | none => none
  | .crash i => some { s with deliveries := s.deliveries.eraseIdx i }

end Step

/-! ## What became of an entry -/

section Accounts

variable {C E F S : Type} (rowToEntry : S → JournalRow C → Option E)
  (filterEntry : Option F → Option String → E → Option E)

/-- The row is one of a subscription's channel. -/
def inChannel (subscription : FederationSubscription F) (row : JournalRow C) : Bool :=
  !subscription.priorityOnly || (row.operation == .delete || row.priority)

/-- The row is below the floor a delivery sets. -/
def belowFloor (opts : DeliverWebhookOptions) (row : JournalRow C) : Bool :=
  opts.minCreatedAt.any fun floor => decide (row.createdAt < floor)

/-- What became of a row a page moved the cursor past, under the subscription as the delivery had
loaded it. -/
inductive Advance.Accounts (a : Advance C E F S) (row : JournalRow C) : Prop
  | notEligible (h : inChannel a.subscription row = false)
  | belowFloor (h : belowFloor a.opts row = true)
  | withheld (h : rowToEntry a.read.sources row = none)
  | dropped (entry : E) (h : rowToEntry a.read.sources row = some entry)
      (hfilter : filterEntry (some a.subscription.filter) (some a.opts.now) entry = none)
  | acknowledged (entry item : E) (answer : PostAnswer)
      (h : rowToEntry a.read.sources row = some entry)
      (hfilter : filterEntry (some a.subscription.filter) (some a.opts.now) entry = some item)
      (hmem : item ∈ a.read.page.orderedItems) (hanswer : a.answer = some answer)
      (hack : answer.isAck = true)

/-- A cursor that reads back lies at or past a row. -/
def CursorPasses (cursor : String) (row : JournalRow C) : Prop :=
  ∃ c txid, decodeOutboxCursor cursor = some c ∧ xid8Of c.txid = some txid ∧
    row.key ≤ toLex (txid, c.seq)

/-- A page moved the cursor past a row: from before it to the last row scanned. -/
def Advance.Passes (a : Advance C E F S) (row : JournalRow C) : Prop :=
  ¬CursorPasses a.subscription.cursor row ∧ ∃ last ∈ a.read.scanned, row.key ≤ last.key

end Accounts

end OpenConditions.Federation

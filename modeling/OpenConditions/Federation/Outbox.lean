import OpenConditions.Lib.Double
import OpenConditions.Lib.Instant
import OpenConditions.Lib.Keyset
import OpenConditions.Lib.Run
import Mathlib.Data.Prod.Lex

set_option relaxedAutoImplicit false
set_option autoImplicit false

/-!
# The outbox journal

The journal read of `packages/federation/src/outbox.ts`, and the transactions that write the
journal: each takes its id at its first write and a sequence number for each of its rows, and
commits or aborts when it likes.  A read is one statement, so it sees the rows committed before its
snapshot and compares their transaction ids with the snapshot's `xmin`.

## Main definitions

* `encodeOutboxCursor`, `decodeOutboxCursor` — the `(txid, seq)` cursor on the wire.
* `readRows`, `readOutbox` — the rows one page scans, and the page.
* `Journal.step` — the transactions.
* `Reading.step` — the transactions and one reader that continues from the high-water mark.

## Implementation notes

The entry of a row and the subscriber's filter choose what a page carries of the rows it has
scanned; they are parameters of the read.
-/

namespace OpenConditions.Federation

/-! ## The cursor -/

/-- The composite cursor: the decimal text of a transaction id, and a number. -/
structure OutboxCursor where
  txid : String
  /-- The value of a double. -/
  seq : ℕ
  deriving DecidableEq, Repr

/-- The cursor that serves the whole journal. -/
def outboxCursorStart : OutboxCursor := ⟨"0", 0⟩

/-- The cursor on the wire, `"<txid>.<seq>"`. -/
def encodeOutboxCursor (cursor : OutboxCursor) : String :=
  String.ofList (cursor.txid.toList ++ '.' :: Nat.toDigits 10 (Double.shortest cursor.seq))

/-- Parses a cursor; `none` on any malformed input, and when `seq` is not a safe integer. -/
def decodeOutboxCursor (value : String) : Option OutboxCursor :=
  let txid := value.toList.takeWhile Char.isDigit
  match value.toList.dropWhile Char.isDigit with
  | '.' :: digits =>
    if txid ≠ [] ∧ digits ≠ [] ∧ digits.all Char.isDigit = true then
      let seq := Double.ofNat (Nat.ofDigitChars 10 digits 0)
      if Double.isSafeInteger seq then some ⟨String.ofList txid, seq⟩ else none
    else none
  | _ => none

/-- Where a read continues from. -/
inductive OutboxAfter where
  | cursor (cursor : OutboxCursor)
  | wire (value : String)
  deriving DecidableEq, Repr

/-- What a read throws. -/
inductive OutboxError where
  | typeError (message : String)
  /-- The database refuses the text of a transaction id. -/
  | xid8 (text : String)
  deriving DecidableEq, Repr

/-- The cursor a read continues from. -/
def normalizeCursor : Option OutboxAfter → Except OutboxError OutboxCursor
  | none => .ok outboxCursorStart
  | some (.cursor cursor) => .ok cursor
  | some (.wire value) =>
    match decodeOutboxCursor value with
    | some cursor => .ok cursor
    | none => .error (.typeError ("readOutbox: malformed cursor \"" ++ value ++ "\""))

/-- The largest transaction id and one. -/
def xid8Bound : ℕ := 18446744073709551616

/-- The transaction id of its decimal text. -/
def xid8Of (text : String) : Option ℕ :=
  let xid := Nat.ofDigitChars 10 text.toList 0
  if text.toList ≠ [] ∧ text.toList.all Char.isDigit = true ∧ xid < xid8Bound then some xid
  else none

/-! ## The read -/

/-- What a journal row says. -/
inductive OutboxOperation where
  | create | update | delete | liveness
  deriving DecidableEq, Repr

/-- A row of the journal, with the rest of its columns as `content`. -/
structure JournalRow (C : Type) where
  seq : ℕ
  txid : ℕ
  operation : OutboxOperation
  priority : Bool
  createdAt : Instant
  content : C
  deriving DecidableEq, Repr

/-- The ordering authority of the journal. -/
def JournalRow.key {C : Type} (row : JournalRow C) : ℕ ×ₗ ℕ := toLex (row.txid, row.seq)

/-- What a read is asked for. -/
structure OutboxQuery (F : Type) where
  after : Option OutboxAfter
  filter : Option F
  priorityOnly : Bool
  minCreatedAt : Option Instant
  limit : Option ℤ
  partOf : Option String
  nextParams : Option String
  now : Option String

/-- The number of rows a page scans at most. -/
def pageLimit (limit : Option ℤ) : ℕ := (min (max (limit.getD 100) 1) 500).toNat

/-- Whether the statement selects a row: its transaction is settled at `xmin`, and it passes the
push channel's restriction and the time floor, where they are set. -/
def selects {C F : Type} (xmin : ℕ) (q : OutboxQuery F) (row : JournalRow C) : Bool :=
  decide (row.txid < xmin) && (!q.priorityOnly || (row.operation == .delete || row.priority)) &&
    q.minCreatedAt.all fun floor => decide (floor ≤ row.createdAt)

/-- The rows one page scans, of the rows the snapshot sees, with the cursor they follow. -/
def readRows {C F : Type} (rows : List (JournalRow C)) (xmin : ℕ) (q : OutboxQuery F) :
    Except OutboxError (OutboxCursor × List (JournalRow C)) :=
  match normalizeCursor q.after with
  | .error e => .error e
  | .ok after =>
    match xid8Of after.txid with
    | none => .error (.xid8 after.txid)
    | some txid =>
      .ok (after, Keyset.page JournalRow.key rows (selects xmin q) (toLex (txid, after.seq))
        (pageLimit q.limit))

/-- The cursor of a row. -/
def JournalRow.cursor {C : Type} (row : JournalRow C) : OutboxCursor :=
  ⟨String.ofList (Nat.toDigits 10 row.txid), Double.ofNat row.seq⟩

/-- A page of the outbox. -/
structure OutboxPage (E : Type) where
  partOf : String
  next : Option String
  highWaterMark : String
  priorityRestricted : Bool
  orderedItems : List E
  deriving DecidableEq

/-- Reads one page. -/
def readOutbox {C E F : Type} (rowToEntry : JournalRow C → Option E)
    (applyRecordFilter : List E → Option F → Option String → List E) (rows : List (JournalRow C))
    (xmin : ℕ) (q : OutboxQuery F) : Except OutboxError (OutboxPage E) :=
  match readRows rows xmin q with
  | .error e => .error e
  | .ok (after, scanned) =>
    let highWaterMark :=
      encodeOutboxCursor ((scanned.getLast?.map JournalRow.cursor).getD after)
    let partOf := q.partOf.getD "/peer/outbox"
    .ok
      { partOf := partOf
        next :=
          if scanned.length = pageLimit q.limit then
            some (partOf ++ "?after=" ++ highWaterMark ++ (q.nextParams.map ("&" ++ ·)).getD "")
          else none
        highWaterMark := highWaterMark
        priorityRestricted := q.priorityOnly
        orderedItems := applyRecordFilter (scanned.filterMap rowToEntry) q.filter q.now }

/-! ## The transactions that write the journal -/

/-- The journal: the ids and sequence numbers still to be handed out, the transactions in progress,
their rows, and the rows committed and still stored. -/
structure Journal (C : Type) where
  nextXid : ℕ
  nextSeq : ℕ
  active : List ℕ
  pending : List (JournalRow C)
  rows : List (JournalRow C)
  deriving DecidableEq

/-- The empty journal; the first id a database hands out is `3`. -/
def Journal.initial (C : Type) : Journal C := ⟨3, 1, [], [], []⟩

/-- What happens to the journal. -/
inductive JournalEvent (C : Type) where
  /-- A transaction takes its id. -/
  | start
  /-- A transaction in progress writes a row, with a sequence number not handed out before. -/
  | write (row : JournalRow C)
  | commit (txid : ℕ)
  | abort (txid : ℕ)
  /-- Stored rows are pruned or erased. -/
  | remove (gone : JournalRow C → Bool)

/-- One event of the journal. -/
def Journal.step {C : Type} (j : Journal C) : JournalEvent C → Option (Journal C)
  | .start =>
    if j.nextXid < xid8Bound then
      some { j with nextXid := j.nextXid + 1, active := j.nextXid :: j.active }
    else none
  | .write row =>
    if row.txid ∈ j.active ∧ j.nextSeq ≤ row.seq ∧ row.seq < 9223372036854775808 then
      some { j with nextSeq := row.seq + 1, pending := j.pending ++ [row] }
    else none
  | .commit txid =>
    if txid ∈ j.active then
      some { j with
        active := j.active.filter (· ≠ txid)
        pending := j.pending.filter (·.txid ≠ txid)
        rows := j.rows ++ j.pending.filter (·.txid = txid) }
    else none
  | .abort txid =>
    if txid ∈ j.active then
      some { j with
        active := j.active.filter (· ≠ txid)
        pending := j.pending.filter (·.txid ≠ txid) }
    else none
  | .remove gone => some { j with rows := j.rows.filter fun row => !gone row }

/-! ## One reader -/

/-- The journal and a reader: the mark it continues from, and the rows of each page it has read. -/
structure Reading (C : Type) where
  journal : Journal C
  after : Option String
  pages : List (List (JournalRow C))
  deriving DecidableEq

/-- The rows scanned so far, page after page. -/
def Reading.scanned {C : Type} (s : Reading C) : List (JournalRow C) := s.pages.flatten

/-- A reader that has not read, of an empty journal. -/
def Reading.initial (C : Type) : Reading C := ⟨.initial C, none, []⟩

/-- What happens to the journal and its reader. -/
inductive ReadingEvent (C F : Type) where
  | journal (event : JournalEvent C)
  /-- A page is read, in a snapshot with this `xmin`. -/
  | read (xmin : ℕ) (q : OutboxQuery F)

/-- The query of a reader that continues from its mark: any limit and filter, but neither the push
channel's restriction nor a time floor. -/
def Reading.query {C F : Type} (s : Reading C) (q : OutboxQuery F) : OutboxQuery F :=
  { q with after := s.after.map .wire, priorityOnly := false, minCreatedAt := none }

section Step

variable {C E F : Type} (rowToEntry : JournalRow C → Option E)
  (applyRecordFilter : List E → Option F → Option String → List E)

/-- One event of the journal and its reader.  A snapshot's `xmin` is at most the id of every
transaction in progress.  A read that throws leaves the reader where it is. -/
def Reading.step (s : Reading C) : ReadingEvent C F → Option (Reading C)
  | .journal event => (s.journal.step event).map fun j => { s with journal := j }
  | .read xmin q =>
    if ∀ txid ∈ s.journal.active, xmin ≤ txid then
      match readRows s.journal.rows xmin (s.query q),
          readOutbox rowToEntry applyRecordFilter s.journal.rows xmin (s.query q) with
      | .ok (_, scanned), .ok page =>
        some { s with after := some page.highWaterMark, pages := s.pages ++ [scanned] }
      | _, _ => some s
    else none

end Step

end OpenConditions.Federation

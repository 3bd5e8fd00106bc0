import Mathlib.Algebra.Order.Group.Unbundled.Int
import Mathlib.Order.Basic

set_option relaxedAutoImplicit false
set_option autoImplicit false

/-!
# The fetch ledger of an on-demand cell

A cell's row in the ledger says how its last fetch ended, until when its answer is stored, and
until when a fetcher has claimed it.  Every change of a row is one statement of the database, so
each is a function on the row: it gives the row it writes, and none when it changes nothing.

## Main definitions

* `LedgerEntry` — one cell's row.
* `cellState` — what a read does with a cell.
* `claimRow`, `claimCell` — claiming a cell, and how a claim ends.
* `renewClaim`, `releaseClaim`, `markFresh`, `markFailed` — what the holder of a claim does.
* `LedgerEntry.Settled` — a row that says until when its last fetch counts.

## Main results

* `claimRow_isSome_iff` — of a settled row, a claim is won exactly when a read finds the cell due
  and no claim is running.
* `updateHeld_eq_some_iff` — a change by the holder is made exactly of the claim it set.
-/

namespace OpenConditions.OnDemand

/-! ## Conditions of the database -/

/-- A condition of the database: `none` is the null that a comparison with nothing gives. -/
abbrev SqlBool := Option Bool

/-- The negation of a condition. -/
def SqlBool.not : SqlBool → SqlBool := Option.map Bool.not

/-- The conjunction of two conditions: false as soon as one is. -/
def SqlBool.and : SqlBool → SqlBool → SqlBool
  | some false, _ | _, some false => some false
  | some true, some true => some true
  | _, _ => none

/-- The disjunction of two conditions: true as soon as one is. -/
def SqlBool.or : SqlBool → SqlBool → SqlBool
  | some true, _ | _, some true => some true
  | some false, some false => some false
  | _, _ => none

/-- Whether an instant of a row comes after another; null where the row has none. -/
def sqlAfter (value : Option ℤ) (now : ℤ) : SqlBool := value.map fun t => decide (now < t)

@[simp] theorem SqlBool.not_some (a : Bool) : SqlBool.not (some a) = some !a := rfl

@[simp] theorem SqlBool.false_and (c : SqlBool) : SqlBool.and (some false) c = some false := by
  rcases c with - | - | - <;> rfl

@[simp] theorem SqlBool.true_or (c : SqlBool) : SqlBool.or (some true) c = some true := by
  rcases c with - | - | - <;> rfl

@[simp] theorem SqlBool.some_and_some (a b : Bool) :
    SqlBool.and (some a) (some b) = some (a && b) := by
  cases a <;> cases b <;> rfl

@[simp] theorem SqlBool.some_or_some (a b : Bool) :
    SqlBool.or (some a) (some b) = some (a || b) := by
  cases a <;> cases b <;> rfl

/-! ## Rows -/

/-- How long a cell whose fetch failed is left alone before it is tried again, in seconds. -/
def failureBackoffSec : ℤ := 120

/-- How a cell's last fetch ended: `pending` until its first one does. -/
inductive FetchStatus where
  | pending
  | fresh
  | failed
  deriving DecidableEq, Repr

/-- One cell's row of the ledger, its instants in milliseconds. -/
structure LedgerEntry where
  status : FetchStatus
  fetchedAt : Option ℤ := none
  expiresAt : Option ℤ := none
  retryAt : Option ℤ := none
  claimedUntil : Option ℤ := none
  deriving DecidableEq, Repr

/-- What a read does with a cell: nothing while its answer is `fresh` or a failed fetch backs off,
and fetch it when it is `due`. -/
inductive CellState where
  | fresh
  | backoff
  | due
  deriving DecidableEq, Repr

/-- What a read does with the cell of a row, which a cell never asked for does not have. -/
def cellState (entry : Option LedgerEntry) (now : ℤ) : CellState :=
  match entry with
  | none => .due
  | some entry =>
    if entry.status = .fresh ∧ entry.expiresAt.any (fun t => decide (now < t)) = true then .fresh
    else if entry.status = .failed ∧ entry.retryAt.any (fun t => decide (now < t)) = true then
      .backoff
    else .due

/-! ## Claims -/

/-- Whether the statement that claims a cell updates the row it finds. -/
def claimable (entry : LedgerEntry) (now : ℤ) : SqlBool :=
  let answered := SqlBool.and (some (decide (entry.status = .fresh))) (sqlAfter entry.expiresAt now)
  let backsOff := SqlBool.and (some (decide (entry.status = .failed))) (sqlAfter entry.retryAt now)
  let unclaimed := SqlBool.or (some entry.claimedUntil.isNone) (sqlAfter entry.claimedUntil now).not
  (answered.not.and backsOff.not).and unclaimed

/-- The row that a claim until `till` writes; none when the cell is not to be claimed. -/
def claimRow (entry : Option LedgerEntry) (now till : ℤ) : Option LedgerEntry :=
  match entry with
  | none => some { status := .pending, claimedUntil := some till }
  | some entry =>
    if claimable entry now = some true then some { entry with claimedUntil := some till } else none

/-- How a claim on a cell ended. -/
inductive Claim where
  | won (till : ℤ)
  | fresh
  | backoff
  | busy
  deriving DecidableEq, Repr

/-- How a claim on the cell of a row ends; a lost one says why from the row `later`, which is read
by a second statement. -/
def claimCell (entry later : Option LedgerEntry) (now till : ℤ) : Claim :=
  match claimRow entry now till with
  | some _ => .won till
  | none =>
    match cellState later now with
    | .fresh => .fresh
    | .backoff => .backoff
    | .due => .busy

/-- The row that a change by the holder of the claim `held` writes: none when the cell's claim is
another. -/
def updateHeld (change : LedgerEntry → LedgerEntry) (entry : Option LedgerEntry) (held : ℤ) :
    Option LedgerEntry :=
  match entry with
  | none => none
  | some entry => if entry.claimedUntil = some held then some (change entry) else none

/-- Moves the caller's claim to `till`. -/
def renewClaim (entry : Option LedgerEntry) (held till : ℤ) : Option LedgerEntry :=
  updateHeld (fun entry => { entry with claimedUntil := some till }) entry held

/-- Gives up the caller's claim without fetching. -/
def releaseClaim (entry : Option LedgerEntry) (held : ℤ) : Option LedgerEntry :=
  updateHeld (fun entry => { entry with claimedUntil := none }) entry held

/-- Records a cell's answer as stored until `expiresAt`, and clears its claim. -/
def markFresh (entry : Option LedgerEntry) (held fetchedAt expiresAt : ℤ) : Option LedgerEntry :=
  updateHeld
    (fun _ =>
      { status := .fresh
        fetchedAt := some fetchedAt
        expiresAt := some expiresAt
        retryAt := none
        claimedUntil := none })
    entry held

/-- Records a failed fetch of a cell, retried no sooner than the backoff, and clears its claim. -/
def markFailed (entry : Option LedgerEntry) (held failedAt : ℤ) : Option LedgerEntry :=
  updateHeld
    (fun entry =>
      { entry with
        status := .failed
        retryAt := some (failedAt + failureBackoffSec * 1000)
        claimedUntil := none })
    entry held

/-- A change by the holder is made exactly of a row whose claim is the one it set. -/
theorem updateHeld_eq_some_iff {change : LedgerEntry → LedgerEntry} {entry : Option LedgerEntry}
    {held : ℤ} {row : LedgerEntry} :
    updateHeld change entry held = some row ↔
      ∃ old, entry = some old ∧ old.claimedUntil = some held ∧ row = change old := by
  unfold updateHeld
  cases entry with
  | none => simp
  | some old =>
    constructor
    · intro h
      dsimp only at h
      split_ifs at h with hclaim
      exact ⟨old, rfl, hclaim, (Option.some.inj h).symm⟩
    · rintro ⟨_, ⟨⟩, hclaim, rfl⟩
      exact if_pos hclaim

/-! ## Rows that are settled -/

/-- A row says until when its last fetch counts: an answered cell when the answer expires, a failed
one when it is tried again. -/
structure LedgerEntry.Settled (entry : LedgerEntry) : Prop where
  expires : entry.status = .fresh → entry.expiresAt ≠ none
  retries : entry.status = .failed → entry.retryAt ≠ none

/-- Every change by a holder leaves a settled row. -/
theorem settled_of_claimedUntil {entry : LedgerEntry} (h : entry.Settled) (claim : Option ℤ) :
    ({ entry with claimedUntil := claim } : LedgerEntry).Settled :=
  ⟨h.expires, h.retries⟩

/-- The claim of a cell, if it has a row and the row a claim. -/
def claimOf (entry : Option LedgerEntry) : Option ℤ := entry.bind LedgerEntry.claimedUntil

/-- A settled row is to be claimed exactly when a read finds its cell due and no claim runs. -/
theorem claimable_eq_true_iff {entry : LedgerEntry} (h : entry.Settled) (now : ℤ) :
    claimable entry now = some true ↔
      cellState (some entry) now = .due ∧ ∀ t, entry.claimedUntil = some t → t ≤ now := by
  obtain ⟨hexpires, hretries⟩ := h
  obtain ⟨status, fetchedAt, expiresAt, retryAt, claimedUntil⟩ := entry
  cases status with
  | pending => cases claimedUntil <;> simp [claimable, cellState, sqlAfter]
  | fresh =>
    obtain ⟨e, he⟩ := Option.ne_none_iff_exists'.mp (hexpires rfl)
    obtain rfl : expiresAt = some e := he
    cases claimedUntil <;> simp [claimable, cellState, sqlAfter]
  | failed =>
    obtain ⟨r, hr⟩ := Option.ne_none_iff_exists'.mp (hretries rfl)
    obtain rfl : retryAt = some r := hr
    cases claimedUntil <;> simp [claimable, cellState, sqlAfter]

/-- **Winning a claim.** A claim on a cell without a row, or of a settled one, is won exactly when
a read finds the cell due and no claim runs. -/
theorem claimRow_isSome_iff {entry : Option LedgerEntry} (h : ∀ e ∈ entry, e.Settled)
    (now till : ℤ) :
    (claimRow entry now till).isSome = true ↔
      cellState entry now = .due ∧ ∀ t, claimOf entry = some t → t ≤ now := by
  cases entry with
  | none => simp [claimRow, cellState, claimOf]
  | some e =>
    have hclaim : claimOf (some e) = e.claimedUntil := rfl
    rw [hclaim, ← claimable_eq_true_iff (h e rfl) now]
    unfold claimRow
    dsimp only
    split_ifs with hwon <;> simp [hwon]

/-- A won claim inserts a row, or changes nothing but the claim of one that is to be claimed. -/
theorem claimRow_eq_some {entry : Option LedgerEntry} {now till : ℤ} {row : LedgerEntry}
    (h : claimRow entry now till = some row) :
    (entry = none ∧ row = { status := .pending, claimedUntil := some till }) ∨
      ∃ old, entry = some old ∧ claimable old now = some true ∧
        row = { old with claimedUntil := some till } := by
  cases entry with
  | none => exact Or.inl ⟨rfl, (Option.some.inj h).symm⟩
  | some old =>
    unfold claimRow at h
    dsimp only at h
    split_ifs at h with hclaim
    exact Or.inr ⟨old, rfl, hclaim, (Option.some.inj h).symm⟩

/-- A claim ends won exactly when its statement writes a row. -/
theorem claimCell_eq_won_iff {entry later : Option LedgerEntry} {now till : ℤ} :
    claimCell entry later now till = .won till ↔ (claimRow entry now till).isSome = true := by
  unfold claimCell
  cases claimRow entry now till with
  | some row => simp
  | none =>
    dsimp only
    cases cellState later now <;> simp

end OpenConditions.OnDemand

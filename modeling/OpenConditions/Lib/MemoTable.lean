import OpenConditions.Lib.OrderedMap

set_option relaxedAutoImplicit false
set_option autoImplicit false

/-!
# Remembered answers

A function that may fail is asked about values; its answers are remembered under the keys of the
values, and a value whose key is known gets the answer that stands there.  A failure is not
remembered, and a value without a key is asked about each time.

## Main definitions

* `ask` — the answer about a value, and the table afterwards.
* `Faithful` — what a table holds is what the function answers about the values in use.
* `KeyedOnce` — values in use with one key are one value.

## Main results

* `ask_fst` — an answer is the function's.
* `Faithful.ask` — and the table stays faithful.
-/

namespace MemoTable

variable {K V E T : Type*} [DecidableEq K]

/-- The answer about a value, and the table afterwards. -/
def ask (key : V → Option K) (f : V → Except E T) (v : V) (table : OrderedMap K T) :
    Except E T × OrderedMap K T :=
  match key v with
  | none => (f v, table)
  | some k =>
    match table.get k with
    | some answer => (.ok answer, table)
    | none =>
      match f v with
      | .error e => (.error e, table)
      | .ok answer => (.ok answer, table.set k answer)

/-- What a table holds is what the function answers about the values in use. -/
def Faithful (key : V → Option K) (f : V → Except E T) (used : List V)
    (table : OrderedMap K T) : Prop :=
  ∀ k answer, table.get k = some answer → ∃ v ∈ used, key v = some k ∧ f v = .ok answer

/-- Values in use with one key are one value. -/
def KeyedOnce (key : V → Option K) (used : List V) : Prop :=
  ∀ v ∈ used, ∀ w ∈ used, ∀ k, key v = some k → key w = some k → v = w

variable {key : V → Option K} {f : V → Except E T} {used : List V} {table : OrderedMap K T} {v : V}

/-- The empty table is faithful. -/
theorem Faithful.empty : Faithful key f used OrderedMap.empty := fun k answer h => by
  rw [OrderedMap.get_empty] at h
  cases h

/-- **The answer about a value in use is the function's.** -/
theorem ask_fst (h : Faithful key f used table) (hone : KeyedOnce key used) (hv : v ∈ used) :
    (ask key f v table).1 = f v := by
  unfold ask
  cases hkey : key v with
  | none => rfl
  | some k =>
    dsimp only
    cases hget : table.get k with
    | none =>
      dsimp only
      cases f v <;> rfl
    | some answer =>
      obtain ⟨w, hw, hkeyw, hanswer⟩ := h k answer hget
      rw [hone v hv w hw k hkey hkeyw, hanswer]

/-- **A table stays faithful when it is asked about a value in use.** -/
theorem Faithful.ask (h : Faithful key f used table) (hv : v ∈ used) :
    Faithful key f used (ask key f v table).2 := by
  unfold MemoTable.ask
  cases hkey : key v with
  | none => exact h
  | some k =>
    dsimp only
    cases hget : table.get k with
    | some answer => exact h
    | none =>
      dsimp only
      cases hf : f v with
      | error e => exact h
      | ok answer =>
        intro x given hx
        rw [OrderedMap.get_set] at hx
        split_ifs at hx with hxk
        · obtain rfl : answer = given := Option.some.inj hx
          exact ⟨v, hv, hxk ▸ hkey, hf⟩
        · exact h x given hx

end MemoTable

import Mathlib.Data.Nat.Log
import Mathlib.Tactic.Linarith

set_option relaxedAutoImplicit false
set_option autoImplicit false

/-!
# Whole numbers in double precision

A natural number read into a double is exact below `2 ^ 53` and rounded to a multiple of a power
of two from there on; written out again it has the fewest significant digits that read back.

## Main definitions

* `Double.ofNat` — the value of the nearest double, ties to the even significand.
* `Double.shortest` — the whole number a double's value is written out as.
* `Double.isSafeInteger` — whether the value is below `2 ^ 53`.

## Main results

* `Double.shortest_of_safe`, `Double.shortest_of_not_safe` — a safe value is written out as it
  is, and an unsafe one as a number that reads back unsafe.
-/

namespace Double

/-- The largest whole number up to which all are represented. -/
def maxSafeInteger : ℕ := 9007199254740991

/-- The value of the double nearest to a natural number. -/
def ofNat (n : ℕ) : ℕ :=
  if n ≤ maxSafeInteger then n
  else
    let unit := 2 ^ (Nat.log 2 n - 52)
    let quotient := n / unit
    let remainder := n % unit
    if 2 * remainder < unit ∨ (2 * remainder = unit ∧ quotient % 2 = 0) then quotient * unit
    else (quotient + 1) * unit

/-- Whether the value of a double that is a whole number is a safe one. -/
def isSafeInteger (value : ℕ) : Bool := decide (value ≤ maxSafeInteger)

/-- The multiple of `10 ^ zeros` closest to a double's value that reads back as it, if any. -/
def candidate (value zeros : ℕ) : Option ℕ :=
  let unit := 10 ^ zeros
  let below := value / unit * unit
  let above := below + unit
  if ofNat below = value then
    if ofNat above = value ∧ above - value < value - below then some above else some below
  else if ofNat above = value then some above else none

/-- The whole number the value of a double below `10 ^ 21` is written out as: the one of fewest
significant digits that reads back as it. -/
def shortest (value : ℕ) : ℕ := ((List.range 21).reverse.findSome? (candidate value)).getD value

/-- A safe integer is exact. -/
theorem ofNat_of_safe {n : ℕ} (h : n ≤ maxSafeInteger) : ofNat n = n := if_pos h

/-- A number above the safe integers reads as one above them. -/
theorem lt_ofNat {n : ℕ} (h : maxSafeInteger < n) : maxSafeInteger < ofNat n := by
  have hlog : 53 ≤ Nat.log 2 n := by
    refine Nat.le_log_of_pow_le (by decide) ?_
    unfold maxSafeInteger at h
    omega
  obtain ⟨e, he⟩ := Nat.exists_eq_add_of_le hlog
  have hexp : Nat.log 2 n - 52 = e + 1 := by omega
  have hpow : 2 ^ 52 * 2 ^ (e + 1) ≤ n := by
    rw [← pow_add]
    exact (Nat.pow_le_of_le_log (by omega) (by omega))
  have hquotient : 2 ^ 52 ≤ n / 2 ^ (e + 1) := (Nat.le_div_iff_mul_le (by positivity)).mpr hpow
  have hunit : 2 ≤ 2 ^ (e + 1) := by
    rw [pow_succ]
    have : 1 ≤ 2 ^ e := Nat.one_le_two_pow
    omega
  have hbig : 2 ^ 52 * 2 ≤ n / 2 ^ (e + 1) * 2 ^ (e + 1) := Nat.mul_le_mul hquotient hunit
  have hmore : n / 2 ^ (e + 1) * 2 ^ (e + 1) ≤ (n / 2 ^ (e + 1) + 1) * 2 ^ (e + 1) :=
    Nat.mul_le_mul_right _ (Nat.le_succ _)
  simp only [ofNat, if_neg (not_le.mpr h), hexp]
  have hmax : maxSafeInteger < 2 ^ 52 * 2 := by decide
  split_ifs
  · exact hmax.trans_le hbig
  · exact hmax.trans_le (hbig.trans hmore)

/-- A number reads as a safe integer exactly when it is one. -/
theorem ofNat_safe_iff {n : ℕ} : ofNat n ≤ maxSafeInteger ↔ n ≤ maxSafeInteger := by
  constructor
  · intro h
    by_contra hlt
    exact absurd h (not_le.mpr (lt_ofNat (not_le.mp hlt)))
  · intro h
    rwa [ofNat_of_safe h]

/-- A candidate reads back as the value. -/
theorem ofNat_candidate {value zeros c : ℕ} (h : candidate value zeros = some c) :
    ofNat c = value := by
  simp only [candidate] at h
  split_ifs at h with hbelow habove habove'
  · cases h
    exact habove.1
  · cases h
    exact hbelow
  · cases h
    exact habove'

/-- A value is written out as a number that reads back as it, or as it is. -/
theorem shortest_cases (value : ℕ) :
    ofNat (shortest value) = value ∨ shortest value = value := by
  unfold shortest
  cases hfind : (List.range 21).reverse.findSome? (candidate value) with
  | none => exact Or.inr rfl
  | some c =>
    obtain ⟨zeros, -, hc⟩ := List.exists_of_findSome?_eq_some hfind
    exact Or.inl (ofNat_candidate hc)

/-- A safe integer is written out as it is. -/
theorem shortest_of_safe {value : ℕ} (h : value ≤ maxSafeInteger) : shortest value = value := by
  rcases shortest_cases value with hread | hself
  · have hsafe : shortest value ≤ maxSafeInteger := by
      rw [← ofNat_safe_iff, hread]
      exact h
    rwa [ofNat_of_safe hsafe] at hread
  · exact hself

/-- An unsafe integer is written out as a number that is not safe either. -/
theorem shortest_of_not_safe {value : ℕ} (h : maxSafeInteger < value) :
    maxSafeInteger < shortest value := by
  rcases shortest_cases value with hread | hself
  · by_contra hsafe
    rw [ofNat_of_safe (not_lt.mp hsafe)] at hread
    rw [hread] at hsafe
    exact hsafe h
  · rwa [hself]

end Double

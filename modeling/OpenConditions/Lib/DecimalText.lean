import Mathlib.Data.Nat.Log
import Mathlib.Tactic.IntervalCases
import OpenConditions.Lib.Utf16

set_option relaxedAutoImplicit false
set_option autoImplicit false

/-!
# The order of decimal texts

Where numbers are compared by their decimal texts, a number stands before another one of the same
number of digits as it is smaller, and otherwise as it is once it is padded with zeros on the right:
`"9"` stands after `"10"` as `90` is more than `10`.

## Main results

* `List.append_lt_append_singleton`, `List.append_lt_iff` — two facts about the lexicographic order.
* `Utf16.codeUnits_repr_lt_iff` — the order of the decimal texts of two numbers.
-/

/-! ## The lexicographic order -/

namespace List

variable {α : Type*} [LinearOrder α]

/-- Lists of one length are compared by their last members when the rest is the same. -/
theorem append_lt_append_singleton {u v : List α} (h : u.length = v.length) (a b : α) :
    u ++ [a] < v ++ [b] ↔ u < v ∨ u = v ∧ a < b := by
  induction u generalizing v with
  | nil =>
    obtain rfl : v = [] := List.length_eq_zero_iff.mp h.symm
    simp [List.cons_lt_cons_iff]
  | cons x u ih =>
    cases v with
    | nil => simp at h
    | cons y v =>
      have hlength : u.length = v.length := by simpa using h
      simp only [List.cons_append, List.cons_lt_cons_iff, ih hlength, List.cons.injEq]
      tauto

/-- What follows a list decides nothing about one that is not longer. -/
theorem append_lt_iff {u v w : List α} (h : u.length ≤ v.length) : v ++ w < u ↔ v < u := by
  induction u generalizing v with
  | nil => simp
  | cons x u ih =>
    cases v with
    | nil => simp at h
    | cons y v =>
      have hlength : u.length ≤ v.length := by simpa using h
      simp only [List.cons_append, List.cons_lt_cons_iff, ih hlength]

end List

namespace Utf16

/-! ## Decimal texts -/

/-- The code units of a text that is put together. -/
theorem codeUnits_append (s t : String) : codeUnits (s ++ t) = codeUnits s ++ codeUnits t := by
  simp only [codeUnits, String.toList_append, List.flatMap_append]

/-- A number is determined by its text. -/
theorem repr_injective : Function.Injective Nat.repr := by
  intro m n h
  rw [Nat.repr_eq_ofList_toDigits, Nat.repr_eq_ofList_toDigits, String.ofList_inj] at h
  rw [← Nat.ofDigitChars_ten_toDigits (n := m), h, Nat.ofDigitChars_ten_toDigits]

/-- The text of a digit. -/
theorem codeUnits_repr_of_lt {n : ℕ} (h : n < 10) : codeUnits n.repr = [48 + n] := by
  interval_cases n <;> decide

/-- The text of a number ends with its last digit. -/
theorem codeUnits_repr_of_ge {n : ℕ} (h : 10 ≤ n) :
    codeUnits n.repr = codeUnits (n / 10).repr ++ [48 + n % 10] := by
  rw [Nat.repr_eq_repr_append_repr h, codeUnits_append,
    codeUnits_repr_of_lt (Nat.mod_lt n (by decide))]

/-- How long the text of a number is. -/
theorem length_codeUnits_repr (n : ℕ) : (codeUnits n.repr).length = Nat.log 10 n + 1 := by
  induction n using Nat.strong_induction_on with
  | _ n ih =>
    by_cases h : n < 10
    · rw [codeUnits_repr_of_lt h, Nat.log_of_lt h]
      rfl
    · rw [not_lt] at h
      rw [codeUnits_repr_of_ge h, List.length_append, ih (n / 10) (by omega),
        Nat.log_div_base 10 n, List.length_singleton]
      have hlog : 0 < Nat.log 10 n := Nat.log_pos (by decide) h
      omega

/-- Decimal texts of one length are in the order of their numbers. -/
theorem codeUnits_repr_lt_of_log_eq {m n : ℕ} (h : Nat.log 10 m = Nat.log 10 n) :
    codeUnits m.repr < codeUnits n.repr ↔ m < n := by
  induction m using Nat.strong_induction_on generalizing n with
  | _ m ih =>
    by_cases hm : m < 10
    · have hn : n < 10 := by
        rw [Nat.log_of_lt hm] at h
        exact (Nat.log_eq_zero_iff.mp h.symm).resolve_right (by decide)
      rw [codeUnits_repr_of_lt hm, codeUnits_repr_of_lt hn]
      simp [List.cons_lt_cons_iff]
    · rw [not_lt] at hm
      have hn : 10 ≤ n := by
        by_contra hlt
        rw [Nat.log_of_lt (not_le.mp hlt)] at h
        exact absurd (Nat.log_pos (by decide) hm) (by omega)
      have hlog : Nat.log 10 (m / 10) = Nat.log 10 (n / 10) := by
        rw [Nat.log_div_base, Nat.log_div_base, h]
      have hlength : (codeUnits (m / 10).repr).length = (codeUnits (n / 10).repr).length := by
        rw [length_codeUnits_repr, length_codeUnits_repr, hlog]
      have heq : codeUnits (m / 10).repr = codeUnits (n / 10).repr ↔ m / 10 = n / 10 :=
        ⟨fun h => repr_injective (codeUnits_injective h), fun h => by rw [h]⟩
      rw [codeUnits_repr_of_ge hm, codeUnits_repr_of_ge hn,
        List.append_lt_append_singleton hlength, ih (m / 10) (by omega) hlog, heq]
      omega

/-- **The order of decimal texts.** The text of a number that has as many digits as another one or
more stands before the other's exactly when it is less than the other, padded with zeros to as
many. -/
theorem codeUnits_repr_lt_iff {m n : ℕ} (h : Nat.log 10 m ≤ Nat.log 10 n) :
    codeUnits n.repr < codeUnits m.repr ↔ n < m * 10 ^ (Nat.log 10 n - Nat.log 10 m) := by
  induction hk : Nat.log 10 n - Nat.log 10 m generalizing n with
  | zero =>
    rw [codeUnits_repr_lt_of_log_eq (by omega), pow_zero, mul_one]
  | succ k ih =>
    have hn : 10 ≤ n := by
      by_contra hlt
      rw [Nat.log_of_lt (not_le.mp hlt)] at hk
      omega
    have hlog : Nat.log 10 (n / 10) = Nat.log 10 n - 1 := Nat.log_div_base 10 n
    have hlength : (codeUnits m.repr).length ≤ (codeUnits (n / 10).repr).length := by
      rw [length_codeUnits_repr, length_codeUnits_repr]
      omega
    rw [codeUnits_repr_of_ge hn, List.append_lt_iff hlength, ih (by omega) (by omega),
      Nat.div_lt_iff_lt_mul (by decide), pow_succ, mul_assoc]

end Utf16

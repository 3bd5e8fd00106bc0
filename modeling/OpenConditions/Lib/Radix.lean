import Mathlib.Data.Nat.Digits.Lemmas

set_option relaxedAutoImplicit false
set_option autoImplicit false

/-!
# Digits in a base

Numbers written with their most significant digit first.  A list of digits is its leading zeros and
the digits of its number, so lists of digits in two bases correspond one to one when zeros are kept
as zeros.

## Main definitions

* `Radix.value` — the number of some digits.
* `Radix.digits` — the digits of a number, without leading zeros.
* `Radix.fixed` — the last digits of a number, as many as said.
* `Radix.convert` — digits in another base, with as many leading zeros.

## Main results

* `Radix.convert_convert` — converted back, digits are what they were.
* `Radix.fixed_value`, `Radix.value_fixed` — digits of a length, and the number they are of.
* `Radix.foldl_bytes` — bytes are digits in base 256.
-/

namespace Radix

variable {a b base : ℕ}

/-! ## Numbers of digits -/

/-- The number of some digits, read one by one. -/
def value (base : ℕ) (ds : List ℕ) : ℕ := ds.foldl (fun v d => v * base + d) 0

/-- The digits of a number, without leading zeros. -/
def digits (base v : ℕ) : List ℕ := (Nat.digits base v).reverse

/-- The last digits of a number, as many as said. -/
def fixed (base : ℕ) : ℕ → ℕ → List ℕ
  | 0, _ => []
  | n + 1, v => fixed base n (v / base) ++ [v % base]

/-- How many zeros lead some digits. -/
def leadingZeros (ds : List ℕ) : ℕ := (ds.takeWhile fun d => decide (d = 0)).length

/-- Digits in another base, with as many leading zeros. -/
def convert (a b : ℕ) (ds : List ℕ) : List ℕ :=
  List.replicate (leadingZeros ds) 0 ++ digits b (value a ds)

@[simp] theorem value_nil : value base [] = 0 := rfl

/-- One more digit at the end. -/
@[simp] theorem value_concat {ds : List ℕ} {d : ℕ} :
    value base (ds ++ [d]) = value base ds * base + d := by
  rw [value, List.foldl_append]
  rfl

/-- The number of digits from the least significant one. -/
theorem value_eq_ofDigits (ds : List ℕ) : value base ds = Nat.ofDigits base ds.reverse := by
  induction ds using List.reverseRecOn with
  | nil => rfl
  | append_singleton ds d ih =>
    rw [value_concat, ih, List.reverse_append, List.reverse_singleton, List.singleton_append,
      Nat.ofDigits_cons, mul_comm, add_comm]

/-- The digits of a number are those of it. -/
theorem value_digits (v : ℕ) : value base (digits base v) = v := by
  rw [value_eq_ofDigits, digits, List.reverse_reverse, Nat.ofDigits_digits]

/-- The digits of a number are below the base. -/
theorem lt_of_mem_digits (hbase : 1 < base) {v d : ℕ} (hd : d ∈ digits base v) : d < base :=
  Nat.digits_lt_base hbase (List.mem_reverse.mp hd)

/-- A number is below the power of the base that its digits are as many as. -/
theorem value_lt_pow (hbase : 1 < base) {ds : List ℕ} (hds : ∀ d ∈ ds, d < base) :
    value base ds < base ^ ds.length := by
  rw [value_eq_ofDigits, ← List.length_reverse]
  exact Nat.ofDigits_lt_base_pow_length hbase fun d hd => hds d (List.mem_reverse.mp hd)

/-- A number below a power of the base has no more digits. -/
theorem length_digits_le (hbase : 1 < base) {v n : ℕ} (hv : v < base ^ n) :
    (digits base v).length ≤ n := by
  rw [digits, List.length_reverse]
  exact (Nat.digits_length_le_iff hbase v).mpr hv

/-- Leading zeros do not count. -/
theorem value_replicate_append (n : ℕ) (ds : List ℕ) :
    value base (List.replicate n 0 ++ ds) = value base ds := by
  rw [value_eq_ofDigits, value_eq_ofDigits, List.reverse_append, List.reverse_replicate,
    Nat.ofDigits_append_replicate_zero]

/-- One more digit, the next one of the number. -/
theorem digits_of_pos (hbase : 1 < base) {v : ℕ} (hv : 0 < v) :
    digits base v = digits base (v / base) ++ [v % base] := by
  rw [digits, Nat.digits_def' hbase hv, List.reverse_cons]
  rfl

@[simp] theorem digits_zero : digits base 0 = [] := by rw [digits, Nat.digits_zero]; rfl

/-! ## Leading zeros -/

/-- The first digit of a number is not zero. -/
theorem head_digits_ne_zero {v d : ℕ} (hd : (digits base v).head? = some d) : d ≠ 0 := by
  have hv : v ≠ 0 := by
    rintro rfl
    rw [digits_zero] at hd
    cases hd
  rw [digits, List.head?_reverse, List.getLast?_eq_getLast_of_ne_nil
    (Nat.digits_ne_nil_iff_ne_zero.mpr hv), Option.some.injEq] at hd
  exact hd ▸ Nat.getLast_digit_ne_zero base hv

/-- Digits of which the first is not zero have no leading zeros. -/
theorem takeWhile_zero_eq_nil {ds : List ℕ} (h : ∀ d, ds.head? = some d → d ≠ 0) :
    ds.takeWhile (fun d => decide (d = 0)) = [] := by
  cases ds with
  | nil => rfl
  | cons d ds => exact List.takeWhile_cons_of_neg (by simpa using h d rfl)

/-- Zeros before the digits of a number are its leading zeros. -/
theorem leadingZeros_replicate_append {n v : ℕ} :
    leadingZeros (List.replicate n 0 ++ digits base v) = n := by
  rw [leadingZeros, List.takeWhile_append_of_pos fun d hd =>
      decide_eq_true (List.eq_of_mem_replicate hd),
    takeWhile_zero_eq_nil fun d => head_digits_ne_zero, List.append_nil, List.length_replicate]

/-- The digits of the number of digits of which the first is not zero are these. -/
theorem digits_value (hbase : 1 < base) {ds : List ℕ} (hds : ∀ d ∈ ds, d < base)
    (hhead : ∀ d, ds.head? = some d → d ≠ 0) : digits base (value base ds) = ds := by
  rw [value_eq_ofDigits, digits, Nat.digits_ofDigits base hbase ds.reverse
    (fun d hd => hds d (List.mem_reverse.mp hd)) fun hne => ?_, List.reverse_reverse]
  refine hhead _ ?_
  rw [← List.getLast?_eq_getLast_of_ne_nil hne, List.getLast?_reverse]

/-- **Some digits** are their leading zeros and the digits of their number. -/
theorem replicate_append_digits (hbase : 1 < base) {ds : List ℕ} (hds : ∀ d ∈ ds, d < base) :
    List.replicate (leadingZeros ds) 0 ++ digits base (value base ds) = ds := by
  have hsplit := List.takeWhile_append_dropWhile (p := fun d => decide (d = 0)) (l := ds)
  have hzeros : ds.takeWhile (fun d => decide (d = 0)) =
      List.replicate (leadingZeros ds) 0 :=
    List.eq_replicate_of_mem fun d hd =>
      of_decide_eq_true (List.all_eq_true.mp List.all_takeWhile d hd)
  rw [hzeros] at hsplit
  have hrest : digits base (value base ds) = ds.dropWhile fun d => decide (d = 0) := by
    conv_lhs => rw [← hsplit]
    rw [value_replicate_append]
    refine digits_value hbase (fun d hd => hds d (List.dropWhile_subset _ hd)) fun d hd => ?_
    have hnot := List.head?_dropWhile_not (fun d => decide (d = 0)) ds
    rw [hd] at hnot
    simpa using hnot
  rw [hrest, hsplit]

/-- **Converted back, digits are what they were.** -/
theorem convert_convert (ha : 1 < a) {ds : List ℕ} (hds : ∀ d ∈ ds, d < a) :
    convert b a (convert a b ds) = ds := by
  rw [convert, convert, leadingZeros_replicate_append, value_replicate_append, value_digits,
    replicate_append_digits ha hds]

/-- Converted digits are below the other base. -/
theorem lt_of_mem_convert (hb : 1 < b) {ds : List ℕ} {d : ℕ} (hd : d ∈ convert a b ds) :
    d < b := by
  rcases List.mem_append.mp hd with hd | hd
  · rw [List.eq_of_mem_replicate hd]
    omega
  · exact lt_of_mem_digits hb hd

/-! ## Digits of a length -/

@[simp] theorem length_fixed (n v : ℕ) : (fixed base n v).length = n := by
  induction n generalizing v with
  | zero => rfl
  | succ n ih => rw [fixed, List.length_append, ih, List.length_singleton]

/-- The last digits of a number are below the base. -/
theorem lt_of_mem_fixed (hbase : 0 < base) {n v d : ℕ} (hd : d ∈ fixed base n v) : d < base := by
  induction n generalizing v with
  | zero => cases hd
  | succ n ih =>
    rcases List.mem_append.mp hd with hd | hd
    · exact ih hd
    · rw [List.mem_singleton.mp hd]
      exact Nat.mod_lt v hbase

/-- The last digits of a number below a power of the base are of it. -/
theorem value_fixed {n v : ℕ} (hv : v < base ^ n) :
    value base (fixed base n v) = v := by
  induction n generalizing v with
  | zero =>
    rw [pow_zero, Nat.lt_one_iff] at hv
    rw [fixed, value_nil, hv]
  | succ n ih =>
    have hdiv : v / base < base ^ n := Nat.div_lt_of_lt_mul (by rwa [pow_succ'] at hv)
    rw [fixed, value_concat, ih hdiv, Nat.div_add_mod']

/-- Some digits are as many last digits of their number. -/
theorem fixed_value {ds : List ℕ} (hds : ∀ d ∈ ds, d < base) :
    fixed base ds.length (value base ds) = ds := by
  induction ds using List.reverseRecOn with
  | nil => rfl
  | append_singleton ds d ih =>
    have hd : d < base := hds d (by simp)
    have hdiv : (value base ds * base + d) / base = value base ds := by
      rw [mul_comm, Nat.mul_add_div (by omega), Nat.div_eq_of_lt hd, add_zero]
    rw [value_concat, List.length_append, List.length_singleton, fixed, hdiv,
      Nat.mul_add_mod', Nat.mod_eq_of_lt hd, ih fun e he => hds e (List.mem_append_left _ he)]

/-! ## Bytes as digits -/

/-- The numbers of some bytes are digits. -/
theorem toNat_lt_of_mem {bytes : List UInt8} : ∀ d ∈ bytes.map UInt8.toNat, d < 256 := by
  intro d hd
  obtain ⟨byte, -, rfl⟩ := List.mem_map.mp hd
  exact byte.toNat_lt

/-- Digits below 256 are those of their bytes. -/
theorem map_toNat_ofNat {ds : List ℕ} (hds : ∀ d ∈ ds, d < 256) :
    (ds.map UInt8.ofNat).map UInt8.toNat = ds := by
  rw [List.map_map]
  refine (List.map_congr_left fun d hd => ?_).trans (List.map_id ds)
  exact UInt8.toNat_ofNat_of_lt' (hds d hd)

/-- Some bytes are those of their digits. -/
theorem map_ofNat_toNat (bytes : List UInt8) :
    (bytes.map UInt8.toNat).map UInt8.ofNat = bytes := by
  rw [List.map_map]
  refine (List.map_congr_left fun byte _ => ?_).trans (List.map_id bytes)
  exact UInt8.ofNat_toNat

/-- Bytes shifted in one by one are read as the digits of one number. -/
theorem foldl_bytes (bytes : List UInt8) :
    bytes.foldl (fun value byte => (value <<< 8) ||| byte.toNat) 0 =
      value 256 (bytes.map UInt8.toNat) := by
  have hstep : (fun (value : ℕ) (byte : UInt8) => (value <<< 8) ||| byte.toNat) =
      fun value byte => value * 256 + byte.toNat := by
    funext value byte
    rw [← Nat.shiftLeft_add_eq_or_of_lt byte.toNat_lt, Nat.shiftLeft_eq]
  rw [hstep, value, List.foldl_map]

end Radix

import Mathlib.Data.Int.Log
import Mathlib.Data.Rat.Floor

set_option relaxedAutoImplicit false
set_option autoImplicit false

/-!
# Numbers at the front of a text

Reading the longest decimal number at the front of a text, as the nearest double, and writing a
number with two decimals.

## Main definitions

* `FloatText.decimalFront` — the decimal number at the front of a text, and the text after it.
* `FloatText.nearestDouble` — the double nearest to a rational, ties to the even one.
* `FloatText.parse` — the finite double of the number at the front of a text.
* `FloatText.spelled` — the rational that a whole text spells.
* `FloatText.toFixed2` — a number with two decimals.
-/

namespace FloatText

/-- The number of some digits. -/
def natOf (digits : List Char) : ℕ := digits.foldl (fun n c => 10 * n + (c.toNat - 48)) 0

/-- A sign at the front of a text: whether it is a minus, and the text after it. -/
def signFront : List Char → Bool × List Char
  | '+' :: cs => (false, cs)
  | '-' :: cs => (true, cs)
  | cs => (false, cs)

/-- An exponent at the front of a text, if there is one, and the text after it. -/
def exponentFront (cs : List Char) : ℤ × List Char :=
  match cs with
  | c :: rest =>
    let (minus, after) := signFront rest
    let (digits, after) := after.span Char.isDigit
    if (c = 'e' ∨ c = 'E') ∧ digits ≠ [] then
      (if minus then -(natOf digits : ℤ) else natOf digits, after)
    else (0, cs)
  | [] => (0, [])

/-- The digits after a point at the front of a text, and the text after them. -/
def fractionFront (cs : List Char) : List Char × List Char :=
  match cs with
  | '.' :: rest => rest.span Char.isDigit
  | _ => ([], cs)

/-- The decimal number at the front of a text, exactly, and the text after it. -/
def decimalFront (cs : List Char) : Option (ℚ × List Char) :=
  let (minus, rest) := signFront cs
  let (whole, rest) := rest.span Char.isDigit
  let (fraction, rest) := fractionFront rest
  if whole = [] ∧ fraction = [] then none
  else
    let (exponent, rest) := exponentFront rest
    let value := (natOf (whole ++ fraction) : ℚ) * 10 ^ (exponent - fraction.length)
    some (if minus then -value else value, rest)

/-- The integer nearest to a rational, ties to the even one. -/
def roundHalfEven (x : ℚ) : ℤ :=
  let down := ⌊x⌋
  if x - down < 1 / 2 then down
  else if 1 / 2 < x - down then down + 1
  else if down % 2 = 0 then down
  else down + 1

/-- The double nearest to a rational, ties to the even one; beyond the greatest double it is not
finite. -/
def nearestDouble (x : ℚ) : Option ℚ :=
  if x = 0 then some 0
  else
    let unit : ℚ := 2 ^ max (Int.log 2 |x| - 52) (-1074)
    let rounded := roundHalfEven (x / unit) * unit
    if |rounded| < 2 ^ 1024 then some rounded else none

/-- The finite double of the number at the front of a text. -/
def parse (cs : List Char) : Option ℚ := (decimalFront cs).bind fun r => nearestDouble r.1

/-- The rational that a whole text spells. -/
def spelled (cs : List Char) : Option ℚ :=
  match decimalFront cs with
  | some (value, []) => some value
  | _ => none

/-- A number with two decimals, ties away from zero; `large` writes the numbers from `10 ^ 21` on. -/
def toFixed2 (large : ℚ → String) (x : ℚ) : String :=
  if (10 : ℚ) ^ 21 ≤ |x| then large x
  else
    let hundredths := ⌊|x| * 100 + 1 / 2⌋.toNat
    (if x < 0 then "-" else "") ++ (hundredths / 100).repr ++ "." ++
      (hundredths / 10 % 10).repr ++ (hundredths % 10).repr

/-- The number at the front counts, whatever follows it. -/
example : parse "22.0-draft".toList = some 22 ∧ spelled "22.0-draft".toList = none ∧
    toFixed2 (fun _ => "") (22001 / 1000) = "22.00" := by
  decide +kernel

end FloatText

import Mathlib.Data.Rat.Defs

set_option relaxedAutoImplicit false
set_option autoImplicit false

/-!
# JSON values

A JSON value as a tree, its numbers as rationals and its objects as lists of fields.

## Main definitions

* `Json` — the values.
* `Json.field`, `Json.items` — a field of an object, the items of an array.
-/

/-- A JSON value. -/
inductive Json where
  | null
  | bool (b : Bool)
  | num (q : ℚ)
  | str (s : String)
  | arr (items : List Json)
  | obj (fields : List (String × Json))

namespace Json

instance : Inhabited Json := ⟨null⟩

/-- The value of a key in a list of fields. -/
def fieldOf (key : String) : List (String × Json) → Option Json
  | [] => none
  | (name, value) :: fields => if name = key then some value else fieldOf key fields

/-- A field of an object; other values have none. -/
def field (key : String) : Json → Option Json
  | obj fields => fieldOf key fields
  | _ => none

/-- The items of an array. -/
def items : Json → Option (List Json)
  | arr items => some items
  | _ => none

/-- The number a value is. -/
def number : Json → Option ℚ
  | num q => some q
  | _ => none

/-- The string a value is. -/
def string : Json → Option String
  | str s => some s
  | _ => none

end Json

import OpenConditions.Lib.Json

set_option relaxedAutoImplicit false
set_option autoImplicit false

/-!
# What a JSON text says

Two JSON values say the same when they differ in the order of the fields of their objects only.  A
value is read as the tree in which an object is the function of its fields; two trees that read alike
are one value.

## Main definitions

* `JsonValue`, `Json.value` — what a value says.
* `Fields` — the fields of an object; `Fields.get`, `without`, `spread`, `put` — the operations.

## Main results

* `Fields.value_ext` — objects with the same fields say the same.
* `Fields.get_without`, `get_spread`, `get_put` — the fields after each operation.
-/

/-- What a JSON value says: its tree, an object as the function of its fields. -/
inductive JsonValue where
  | null
  | bool (b : Bool)
  | num (q : ℚ)
  | str (s : String)
  | arr (items : List JsonValue)
  | obj (fields : String → Option JsonValue)

mutual

/-- What a value says. -/
def Json.value : Json → JsonValue
  | .null => .null
  | .bool b => .bool b
  | .num q => .num q
  | .str s => .str s
  | .arr items => .arr (Json.values items)
  | .obj fields => .obj (Json.fieldValues fields)

/-- What the items of an array say. -/
def Json.values : List Json → List JsonValue
  | [] => []
  | item :: items => item.value :: Json.values items

/-- What the fields of an object say. -/
def Json.fieldValues : List (String × Json) → String → Option JsonValue
  | [], _ => none
  | (name, v) :: fields, key => if name = key then some v.value else Json.fieldValues fields key

end

/-- The items of an array say what each says. -/
theorem Json.values_eq (items : List Json) : Json.values items = items.map Json.value := by
  induction items with
  | nil => rfl
  | cons item items ih => rw [Json.values, ih, List.map_cons]

/-- The fields of an object say what each says. -/
theorem Json.fieldValues_eq (fields : List (String × Json)) (key : String) :
    Json.fieldValues fields key = (Json.fieldOf key fields).map Json.value := by
  induction fields with
  | nil => rfl
  | cons field fields ih =>
    obtain ⟨name, v⟩ := field
    rw [Json.fieldValues, Json.fieldOf]
    split_ifs
    · rfl
    · exact ih

/-- A value that says a string is that string. -/
theorem Json.eq_str {v : Json} {s : String} (h : v.value = .str s) : v = .str s := by
  cases v <;> simp_all [Json.value]

/-- A value that says what an array says is an array, of items that say the same. -/
theorem Json.eq_arr {v : Json} {items : List Json} (h : v.value = (Json.arr items).value) :
    ∃ items', v = .arr items' ∧ items'.map Json.value = items.map Json.value := by
  cases v with
  | arr items' =>
    simp only [Json.value, JsonValue.arr.injEq, Json.values_eq] at h
    exact ⟨items', rfl, h⟩
  | null | bool | num | str | obj => simp [Json.value] at h

/-- A value that says what an object says is an object. -/
theorem Json.eq_obj {v : Json} {fields : List (String × Json)} (h : v.value = (Json.obj fields).value) :
    ∃ fields', v = .obj fields' ∧ (Json.obj fields').value = (Json.obj fields).value := by
  cases v with
  | obj fields' => exact ⟨fields', rfl, h⟩
  | null | bool | num | str | arr => simp [Json.value] at h

/-- The fields of an object; of two with one name the first counts. -/
abbrev Fields := List (String × Json)

namespace Fields

/-- The value of a field. -/
def get (fields : Fields) (key : String) : Option Json := Json.fieldOf key fields

/-- The fields without some. -/
def without (fields : Fields) (keys : List String) : Fields :=
  fields.filter fun f => !keys.contains f.1

/-- The fields of two objects; those of the second count. -/
def spread (a b : Fields) : Fields := b ++ a

/-- The fields with one set. -/
def put (fields : Fields) (key : String) (v : Json) : Fields := (key, v) :: fields

/-- A field that is given, or none. -/
def given (key : String) (v : Option Json) : Fields := (v.map fun v => (key, v)).toList

/-- What an object says. -/
def value (fields : Fields) : JsonValue := (Json.obj fields).value

variable {a b fields : Fields} {key k : String}

@[simp] theorem get_nil : get [] key = none := rfl

@[simp] theorem get_cons {name : String} {v : Json} :
    get ((name, v) :: fields) key = if name = key then some v else get fields key := rfl

/-- A field of two objects is that of the second, or of the first. -/
@[simp] theorem get_spread : (spread a b).get key = (b.get key).or (a.get key) := by
  unfold spread
  induction b with
  | nil => rfl
  | cons f b ih =>
    obtain ⟨name, v⟩ := f
    rw [List.cons_append, get_cons, get_cons]
    split_ifs
    · rfl
    · exact ih

/-- A field of two objects is that of the first, or of the second. -/
theorem get_append : get (a ++ b) key = (a.get key).or (b.get key) := get_spread

/-- A field that was set. -/
@[simp] theorem get_put {v : Json} :
    (put fields key v).get k = if key = k then some v else fields.get k := rfl

/-- A field among those of some keys. -/
theorem get_filter {keep : String → Bool} :
    get (fields.filter fun f => keep f.1) key = if keep key then fields.get key else none := by
  induction fields with
  | nil => simp
  | cons f fields ih =>
    obtain ⟨name, v⟩ := f
    by_cases hname : keep name = true
    · rw [List.filter_cons, if_pos hname, get_cons, get_cons, ih]
      by_cases hkey : name = key
      · rw [if_pos hkey, if_pos hkey, if_pos (hkey ▸ hname)]
      · rw [if_neg hkey, if_neg hkey]
    · rw [List.filter_cons, if_neg hname, ih, get_cons]
      by_cases hkey : name = key
      · rw [if_neg (hkey ▸ hname), if_neg (hkey ▸ hname)]
      · rw [if_neg hkey]

/-- A field that is left out is none. -/
@[simp] theorem get_without {keys : List String} :
    (without fields keys).get key = if key ∈ keys then none else fields.get key := by
  rw [without, @get_filter _ _ fun name => !keys.contains name]
  by_cases hkey : key ∈ keys <;> simp [hkey]

/-- An object has a field for each of its entries. -/
theorem get_isSome_of_mem {f : String × Json} (hf : f ∈ fields) :
    (get fields f.1).isSome = true := by
  induction fields with
  | nil => exact absurd hf List.not_mem_nil
  | cons g fields ih =>
    obtain ⟨name, v⟩ := g
    rw [get_cons]
    split_ifs with hname
    · rfl
    · rcases List.mem_cons.mp hf with rfl | hf
      · exact absurd rfl hname
      · exact ih hf

/-- A field is that of an entry. -/
theorem mem_of_get {v : Json} (hv : get fields key = some v) : (key, v) ∈ fields := by
  induction fields with
  | nil => cases hv
  | cons g fields ih =>
    obtain ⟨name, w⟩ := g
    rw [get_cons] at hv
    split_ifs at hv with hname
    · obtain rfl := Option.some.inj hv
      exact hname ▸ List.mem_cons_self ..
    · exact List.mem_cons_of_mem _ (ih hv)

/-- A field that may be given. -/
@[simp] theorem get_given {v : Option Json} :
    (given key v).get k = if key = k then v else none := by
  cases v with
  | none => simp [given]
  | some v => rfl

/-- What an object says, by its fields. -/
theorem value_eq : fields.value = .obj fun key => (fields.get key).map Json.value := by
  unfold value Json.value
  exact congrArg JsonValue.obj (funext fun key => Json.fieldValues_eq fields key)

/-- **Objects with the same fields say the same.** -/
theorem value_ext (h : ∀ key, (a.get key).map Json.value = (b.get key).map Json.value) :
    a.value = b.value := by
  rw [value_eq, value_eq]
  exact congrArg JsonValue.obj (funext h)

/-- Objects that say the same have the same fields. -/
theorem get_of_value (h : a.value = b.value) (key : String) :
    (a.get key).map Json.value = (b.get key).map Json.value := by
  rw [value_eq, value_eq, JsonValue.obj.injEq] at h
  exact congrFun h key

/-- A field of an object that says the same. -/
theorem get_eq_some (h : a.value = b.value) {v : Json} (hv : b.get key = some v) :
    ∃ v', a.get key = some v' ∧ v'.value = v.value := by
  have heq := get_of_value h key
  rw [hv, Option.map_some] at heq
  exact Option.map_eq_some_iff.mp heq

/-- The fields that some keys may give. -/
theorem get_flatMap_given {f : String → Option Json} {keys : List String} :
    get (keys.flatMap fun key => given key (f key)) k = if k ∈ keys then f k else none := by
  induction keys with
  | nil => rfl
  | cons key keys ih =>
    rw [List.flatMap_cons, get_append, get_given, ih]
    by_cases hk : key = k
    · subst hk
      cases hf : f key <;> simp
    · have hk' : ¬k = key := fun heq => hk heq.symm
      simp [hk, hk']

end Fields

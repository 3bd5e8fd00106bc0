import OpenConditions.Core.ObservationCodec

set_option relaxedAutoImplicit false
set_option autoImplicit false

/-!
# What the fields of an object say

A text, an object or an array that a program reads of a field is what the field says, whatever the
order of the keys in it.

## Main definitions

* `SameAt` — two objects say the same of a field.

## Main results

* `SameAt.textAt`, `SameAt.fieldsAt`, `SameAt.itemsAt` — what is read of such a field is the same.
-/

namespace OpenConditions.Core

/-! ## Fields of a kind -/

section Kinds

variable {key : String}

/-- A text of a field is the field's value. -/
theorem get_of_textAt {fields : Fields} {s : String} (h : textAt fields key = some s) :
    fields.get key = some (.str s) := by
  obtain ⟨v, hv, hs⟩ := Option.bind_eq_some_iff.mp h
  cases v <;> simp_all [Json.string]

/-- The fields of a field are the field's value. -/
theorem get_of_fieldsAt {fields f : Fields} (h : fieldsAt fields key = some f) :
    fields.get key = some (.obj f) := by
  obtain ⟨v, hv, hf⟩ := Option.bind_eq_some_iff.mp h
  cases v <;> simp_all [fieldsIn]

/-- The items of a field are the field's value. -/
theorem get_of_itemsAt {fields : Fields} {items : List Json} (h : itemsAt fields key = some items) :
    fields.get key = some (.arr items) := by
  obtain ⟨v, hv, hi⟩ := Option.bind_eq_some_iff.mp h
  cases v <;> simp_all [Json.items]

end Kinds

/-! ## Fields that say the same -/

section SameAt

/-- Two optional values that say the same are both none, or both say it. -/
theorem map_eq_map_cases {α β γ : Type} {f : α → γ} {g : β → γ} {o : Option α} {o' : Option β}
    (h : o.map f = o'.map g) :
    (o = none ∧ o' = none) ∨ ∃ v w, o = some v ∧ o' = some w ∧ f v = g w := by
  cases o with
  | none =>
    rw [Option.map_none, eq_comm, Option.map_eq_none_iff] at h
    exact Or.inl ⟨rfl, h⟩
  | some v =>
    obtain ⟨w, hw, heq⟩ := Option.map_eq_some_iff.mp h.symm
    exact Or.inr ⟨v, w, rfl, hw, heq.symm⟩

variable {a b : Fields} {key : String}

/-- Two objects say the same of a field. -/
def SameAt (a b : Fields) (key : String) : Prop :=
  (a.get key).map Json.value = (b.get key).map Json.value

/-- The text of a field is what it says. -/
theorem SameAt.textAt (h : SameAt a b key) : textAt a key = textAt b key := by
  unfold Core.textAt
  rcases map_eq_map_cases h with ⟨ha, hb⟩ | ⟨v, w, ha, hb, hvw⟩
  · rw [ha, hb]
  · rw [ha, hb, Option.bind_some, Option.bind_some]
    cases v <;> cases w <;> simp_all [Json.value, Json.string]

/-- The fields of a value are what it says. -/
theorem fieldsIn_congr {v w : Json} (h : v.value = w.value) :
    (fieldsIn v).map Fields.value = (fieldsIn w).map Fields.value := by
  cases v <;> cases w <;> simp_all [Json.value, fieldsIn, Fields.value]

/-- A string is what its value says. -/
theorem string_congr {v w : Json} (h : v.value = w.value) : v.string = w.string := by
  cases v <;> cases w <;> simp_all [Json.value, Json.string]

/-- A number is what its value says. -/
theorem number_congr {v w : Json} (h : v.value = w.value) : v.number = w.number := by
  cases v <;> cases w <;> simp_all [Json.value, Json.number]

/-- The items of a value are what it says. -/
theorem items_congr {v w : Json} (h : v.value = w.value) :
    v.items.map (List.map Json.value) = w.items.map (List.map Json.value) := by
  cases v <;> cases w <;> simp_all [Json.value, Json.items, Json.values_eq]

/-- The fields of a field say what it says. -/
theorem SameAt.fieldsAt (h : SameAt a b key) :
    (fieldsAt a key).map Fields.value = (fieldsAt b key).map Fields.value := by
  unfold Core.fieldsAt
  rcases map_eq_map_cases h with ⟨ha, hb⟩ | ⟨v, w, ha, hb, hvw⟩
  · rw [ha, hb]
  · rw [ha, hb]
    exact fieldsIn_congr hvw

/-- The fields of a field say the same, also when it has none. -/
theorem SameAt.getD (h : SameAt a b key) :
    ((Core.fieldsAt a key).getD []).value = ((Core.fieldsAt b key).getD []).value := by
  rcases map_eq_map_cases h.fieldsAt with ⟨ha, hb⟩ | ⟨v, w, ha, hb, hvw⟩
  · rw [ha, hb]
  · rw [ha, hb]
    exact hvw

/-- The items of a field say what it says. -/
theorem SameAt.itemsAt (h : SameAt a b key) :
    (itemsAt a key).map (List.map Json.value) = (itemsAt b key).map (List.map Json.value) := by
  unfold Core.itemsAt
  rcases map_eq_map_cases h with ⟨ha, hb⟩ | ⟨v, w, ha, hb, hvw⟩
  · rw [ha, hb]
  · rw [ha, hb]
    exact items_congr hvw

/-- The first item of a field's array says the same. -/
theorem SameAt.head (h : SameAt a b key) :
    ((Core.itemsAt a key).bind List.head?).map Json.value =
      ((Core.itemsAt b key).bind List.head?).map Json.value := by
  unfold Core.itemsAt
  rcases map_eq_map_cases h with ⟨ha, hb⟩ | ⟨v, w, ha, hb, hvw⟩
  · rw [ha, hb]
  · rw [ha, hb]
    rcases map_eq_map_cases (items_congr hvw) with ⟨hv, hw⟩ | ⟨xs, ys, hv, hw, hxs⟩
    · rw [Option.bind_some, Option.bind_some, hv, hw]
    · rw [Option.bind_some, Option.bind_some, hv, hw, Option.bind_some, Option.bind_some,
        ← List.head?_map, ← List.head?_map, hxs]

/-- Objects that say the same do so of each field. -/
theorem sameAt_of_value (h : a.value = b.value) (key : String) : SameAt a b key :=
  Fields.get_of_value h key

end SameAt

end OpenConditions.Core

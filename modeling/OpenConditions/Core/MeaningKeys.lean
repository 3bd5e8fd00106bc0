import OpenConditions.Core.SituationMeaning
import OpenConditions.Lib.Rearrange

set_option relaxedAutoImplicit false
set_option autoImplicit false

/-!
# Keys of values

The key of a value is its text with the members of its objects in the order of a language
(`ordered`, `keyOf`, `unordered` of `packages/core/src/situation-compatibility.ts`).  A key tells
what its value says.  Values that say the same have one key where the language tells their names
apart: of two names that stand alike the one listed first stays first.

## Main definitions

* `Occurs` — a name is one of some object in a value.
* `Apart` — a language tells different texts apart.

## Main results

* `value_eq_of_keyOf_eq` — a key tells what its value says.
* `keyOf_congr` — values that say the same have one key, where their names are told apart.
* `unordered_congr` — and lists of them come in one order, where their keys are told apart.
-/

namespace OpenConditions.Core

open Json (NumberText memberText membersOf said separated)

variable {T : MeaningText} {le : String → String → Bool}

/-! ## Texts -/

/-- The texts of the items of an array. -/
theorem stringifyItems_eq (nums : NumberText) (items : List Json) :
    stringifyItems nums items = items.map (stringify nums) := by
  induction items with
  | nil => rfl
  | cons v items ih => rw [stringifyItems, ih, List.map_cons]

/-- The texts of the members of an object. -/
theorem stringifyFields_eq (nums : NumberText) (fields : List (String × Json)) :
    stringifyFields nums fields = fields.map fun m => memberText (m.1, stringify nums m.2) := by
  induction fields with
  | nil => rfl
  | cons f fields ih => rw [stringifyFields, ih, List.map_cons, memberText]

/-- The members of an object tell what it says. -/
theorem value_eq_of_said {fields : List (String × Json)} : ∀ {fields' : List (String × Json)},
    said fields = said fields' → (Json.obj fields).value = (Json.obj fields').value := by
  intro fields' h
  refine Fields.value_ext fun key => ?_
  induction fields generalizing fields' with
  | nil =>
    obtain rfl : fields' = [] := List.map_eq_nil_iff.mp h.symm
    rfl
  | cons f fields ih =>
    cases fields' with
    | nil => cases h
    | cons f' fields' =>
      obtain ⟨hhead, htail⟩ := List.cons.inj h
      obtain ⟨hname, hvalue⟩ := Prod.mk.inj hhead
      rw [Fields.get_cons, Fields.get_cons, ← hname]
      split_ifs
      · exact congrArg some hvalue
      · exact ih htail

/-- The text of a value writes the members of an object as they are listed. -/
theorem writes_stringify (nums : NumberText) : Json.Writes nums id (stringify nums) where
  null := rfl
  bool b := by cases b <;> rfl
  num _ := rfl
  str _ := rfl
  arr items := by rw [stringify, stringifyItems_eq]
  obj fields := by rw [stringify, stringifyFields_eq]; rfl
  mem _ _ hm := hm
  told _ _ h := value_eq_of_said h

/-! ## Members in order -/

/-- The items of an array, each with its members in order. -/
theorem orderedItems_eq (items : List Json) : orderedItems le items = items.map (ordered le) := by
  induction items with
  | nil => rfl
  | cons v items ih => rw [orderedItems, ih, List.map_cons]

/-- The members of an object, each with its own members in order. -/
theorem orderedFields_eq (fields : List (String × Json)) :
    orderedFields le fields = (membersOf fields).map fun m => (m.1, ordered le m.2) := by
  induction fields with
  | nil => rfl
  | cons f fields ih =>
    rw [orderedFields, membersOf, ih, List.map_cons, List.filter_map]
    rfl

/-- The members of an object in order. -/
def inOrder (le : String → String → Bool) (fields : List (String × Json)) : List (String × Json) :=
  Sorting.sortBy (fun a b => le a.1 b.1) ((membersOf fields).map fun m => (m.1, ordered le m.2))

/-- An object in order. -/
theorem ordered_obj (fields : List (String × Json)) :
    ordered le (.obj fields) = .obj (inOrder le fields) := by
  rw [ordered, orderedFields_eq, inOrder]

/-- A member in order is the field of its name, in order. -/
theorem mem_inOrder {fields : List (String × Json)} {name : String} {v : Json} :
    (name, v) ∈ inOrder le fields ↔ (Fields.get fields name).map (ordered le) = some v := by
  rw [inOrder, Sorting.mem_sortBy, List.mem_map, Option.map_eq_some_iff]
  constructor
  · rintro ⟨⟨name', w⟩, hmem, heq⟩
    obtain ⟨rfl, rfl⟩ := Prod.mk.inj heq
    exact ⟨w, Json.mem_membersOf.mp hmem, rfl⟩
  · rintro ⟨w, hw, rfl⟩
    exact ⟨(name, w), Json.mem_membersOf.mpr hw, rfl⟩

/-- The names in order are distinct. -/
theorem inOrder_pairwise (fields : List (String × Json)) :
    (inOrder le fields).Pairwise fun a b => a.1 ≠ b.1 :=
  (Sorting.sortBy_perm _ _).symm.pairwise
    (List.pairwise_map.mpr (Json.membersOf_pairwise fields)) fun h => h.symm

/-- A field of members with distinct names. -/
theorem get_eq_some_iff_mem {fields : Fields} (h : fields.Pairwise fun a b => a.1 ≠ b.1)
    {name : String} {v : Json} : fields.get name = some v ↔ (name, v) ∈ fields := by
  refine ⟨Fields.mem_of_get, fun hmem => ?_⟩
  induction fields with
  | nil => cases hmem
  | cons f fields ih =>
    obtain ⟨name', w⟩ := f
    rw [List.pairwise_cons] at h
    rw [Fields.get_cons]
    rcases List.mem_cons.mp hmem with heq | hmem
    · obtain ⟨rfl, rfl⟩ := Prod.mk.inj heq
      exact if_pos rfl
    · rw [if_neg (h.1 _ hmem), ih h.2 hmem]

/-- A field of an object in order. -/
theorem get_inOrder (fields : Fields) (key : String) :
    Fields.get (inOrder le fields) key = (fields.get key).map (ordered le) :=
  Option.ext fun _ => (get_eq_some_iff_mem (inOrder_pairwise fields)).trans mem_inOrder

/-- **A value says the same in order.** -/
theorem value_ordered (v : Json) : (ordered le v).value = v.value := by
  induction v using Json.induct with
  | null | bool | num | str => rfl
  | arr items ih =>
    rw [ordered, orderedItems_eq, Json.value, Json.value, Json.values_eq, Json.values_eq,
      List.map_map]
    exact congrArg JsonValue.arr (List.map_congr_left ih)
  | obj fields ih =>
    rw [ordered_obj]
    refine Fields.value_ext fun key => ?_
    rw [get_inOrder, Option.map_map]
    cases hget : Fields.get fields key with
    | none => rfl
    | some v => exact congrArg some (ih (key, v) (Fields.mem_of_get hget))

/-- **A key tells what its value says.** -/
theorem value_eq_of_keyOf_eq {a b : Json} (h : keyOf T a = keyOf T b) : a.value = b.value := by
  have hchars := congrArg String.toList h
  rw [keyOf, keyOf, String.toList_ofList, String.toList_ofList] at hchars
  rw [← @value_ordered T.localeLe a, ← @value_ordered T.localeLe b]
  exact (writes_stringify T.nums).value_eq hchars

/-! ## Names told apart -/

/-- A name is one of some object in a value. -/
inductive Occurs (name : String) : Json → Prop
  | item {items : List Json} {v : Json} (hv : v ∈ items) (h : Occurs name v) :
      Occurs name (.arr items)
  | here {fields : Fields} {v : Json} (hv : fields.get name = some v) : Occurs name (.obj fields)
  | field {fields : Fields} {key : String} {v : Json} (hv : fields.get key = some v)
      (h : Occurs name v) : Occurs name (.obj fields)

/-- The names in a value are some of these. -/
def Within (names : Set String) (v : Json) : Prop := ∀ name, Occurs name v → name ∈ names

/-- The names in an optional value, and the one it stands under, are some of these. -/
def WithinAt (names : Set String) (key : String) (o : Option Json) : Prop :=
  ∀ v, o = some v → key ∈ names ∧ Within names v

/-- Of these texts no two different ones stand alike in a language. -/
def Apart (le : String → String → Bool) (texts : Set String) : Prop :=
  ∀ a ∈ texts, ∀ b ∈ texts, le a b = true → le b a = true → a = b

variable {names : Set String} {fields fields' : Fields} {key : String} {o o' : Option Json}

/-- The names in an object are those of its fields. -/
theorem within_obj_iff : Within names (.obj fields) ↔ ∀ key, WithinAt names key (fields.get key) := by
  constructor
  · exact fun h key v hv => ⟨h key (.here hv), fun name hname => h name (.field hv hname)⟩
  · intro h name hname
    cases hname with
    | here hv => exact (h name _ hv).1
    | field hv hname => exact (h _ _ hv).2 name hname

/-- The names in a field of an object. -/
theorem Within.get (h : Within names (.obj fields)) (key : String) :
    WithinAt names key (fields.get key) :=
  Iff.mp within_obj_iff h key

/-- The names in an array are those in its items. -/
theorem within_arr_iff {items : List Json} :
    Within names (.arr items) ↔ ∀ v ∈ items, Within names v := by
  constructor
  · exact fun h v hv name hname => h name (.item hv hname)
  · intro h name hname
    cases hname with
    | item hv hname => exact h _ hv name hname

/-- A string has no names. -/
theorem within_str (s : String) : Within names (.str s) := by
  intro name hname
  cases hname

/-- A value that is absent has no names. -/
theorem withinAt_none : WithinAt names key none := fun _ hv => (by cases hv)

/-- The names in the first of two optional values that there is. -/
theorem WithinAt.or (h : WithinAt names key o) (h' : WithinAt names key o') :
    WithinAt names key (o.or o') := by
  cases o with
  | none => exact h'
  | some v => exact h

/-- The names in an optional value under a condition. -/
theorem withinAt_ite {p : Prop} [Decidable p] (h : p → WithinAt names key o)
    (h' : ¬p → WithinAt names key o') : WithinAt names key (if p then o else o') := by
  split_ifs with hp
  · exact h hp
  · exact h' hp

/-- The names in an object with one field set. -/
theorem within_put {v : Json} (h : Within names (.obj fields)) (hkey : key ∈ names)
    (hv : Within names v) : Within names (.obj (fields.put key v)) := by
  refine Iff.mpr within_obj_iff fun k => ?_
  rw [Fields.get_put]
  refine withinAt_ite (fun hk w hw => ?_) fun _ => h.get k
  obtain rfl := Option.some.inj hw
  exact ⟨hk ▸ hkey, hv⟩

/-- The names in two objects. -/
theorem within_spread (h : Within names (.obj fields)) (h' : Within names (.obj fields')) :
    Within names (.obj (fields.spread fields')) := by
  refine Iff.mpr within_obj_iff fun k => ?_
  rw [Fields.get_spread]
  exact (h'.get k).or (h.get k)

/-- The names in an object without some fields. -/
theorem within_without (h : Within names (.obj fields)) (keys : List String) :
    Within names (.obj (fields.without keys)) := by
  refine Iff.mpr within_obj_iff fun k => ?_
  rw [Fields.get_without]
  exact withinAt_ite (fun _ => withinAt_none) fun _ => h.get k

/-- The names in a field that may be given. -/
theorem within_given (h : WithinAt names key o) : Within names (.obj (Fields.given key o)) := by
  refine Iff.mpr within_obj_iff fun k => ?_
  rw [Fields.get_given]
  exact withinAt_ite (fun hk => hk ▸ h) fun _ => withinAt_none

/-- Values that say the same have the same names. -/
theorem Occurs.congr {name : String} {v : Json} (h : Occurs name v) :
    ∀ {w : Json}, v.value = w.value → Occurs name w := by
  induction h with
  | item hv _ ih =>
    intro w hw
    obtain ⟨items', rfl, hmap⟩ := Json.eq_arr hw.symm
    have hmem := List.mem_map_of_mem (f := Json.value) hv
    rw [← hmap] at hmem
    obtain ⟨v', hv', hvalue⟩ := List.mem_map.mp hmem
    exact .item hv' (ih hvalue.symm)
  | here hv =>
    intro w hw
    obtain ⟨fields', rfl, hvalue⟩ := Json.eq_obj hw.symm
    obtain ⟨v', hv', -⟩ := Fields.get_eq_some hvalue hv
    exact .here hv'
  | field hv _ ih =>
    intro w hw
    obtain ⟨fields', rfl, hvalue⟩ := Json.eq_obj hw.symm
    obtain ⟨v', hv', hsame⟩ := Fields.get_eq_some hvalue hv
    exact .field hv' (ih hsame.symm)

/-- **Values that say the same are one in order**, where their names are told apart. -/
theorem ordered_congr (hle : Sorting.OrdersBy le) (hapart : Apart le names) (a : Json) :
    ∀ b, Within names a → Within names b → a.value = b.value → ordered le a = ordered le b := by
  induction a using Json.induct with
  | null | bool x | num p =>
    intro b _ _ h
    cases b <;> simp_all [Json.value]
  | str x =>
    intro b _ _ h
    rw [Json.eq_str h.symm]
  | arr items ih =>
    intro b ha hb h
    obtain ⟨items', rfl, hmap⟩ := Json.eq_arr h.symm
    rw [ordered, ordered, orderedItems_eq, orderedItems_eq]
    exact congrArg Json.arr (Json.map_eq_of_map_eq
      (fun v hv w hw =>
        ih v hv w (Iff.mp within_arr_iff ha v hv) (Iff.mp within_arr_iff hb w hw)) hmap.symm)
  | obj fields ih =>
    intro b ha hb h
    obtain ⟨fields', rfl, hvalue⟩ := Json.eq_obj h.symm
    rw [ordered_obj, ordered_obj]
    -- The two have the same members, and a name tells a member from the others.
    have hfields : ∀ key, (Fields.get fields key).map (ordered le) =
        (Fields.get fields' key).map (ordered le) := by
      intro key
      have hkey := Fields.get_of_value hvalue.symm key
      cases hv : Fields.get fields key with
      | none =>
        rw [hv] at hkey
        rw [Option.map_eq_none_iff.mp hkey.symm]
      | some v =>
        rw [hv] at hkey
        obtain ⟨w, hw, hvw⟩ := Option.map_eq_some_iff.mp hkey.symm
        rw [hw, Option.map_some, Option.map_some, ih (key, v) (Fields.mem_of_get hv) w
          (ha.get key v hv).2 (hb.get key w hw).2 hvw.symm]
    have hnodup : ∀ fs : Fields, ((membersOf fs).map fun m => (m.1, ordered le m.2)).Nodup :=
      fun fs => List.pairwise_map.mpr ((Json.membersOf_pairwise fs).imp fun hne heq =>
        hne (Prod.mk.inj heq).1)
    refine congrArg Json.obj (Sorting.sortBy_congr_perm ⟨fun a b => hle.total a.1 b.1,
      fun a b c => hle.trans a.1 b.1 c.1⟩ ?_ ?_)
    · rintro ⟨name, v⟩ hmem ⟨name', v'⟩ hmem' hab hba
      have hmem₁ := Iff.mp mem_inOrder (Sorting.mem_sortBy.mpr hmem)
      have hmem₂ := Iff.mp mem_inOrder (Sorting.mem_sortBy.mpr hmem')
      have hin : ∀ {key : String} {w : Json},
          (Fields.get fields key).map (ordered le) = some w → key ∈ names := fun hget => by
        obtain ⟨_, hget, _⟩ := Option.map_eq_some_iff.mp hget
        exact (ha.get _ _ hget).1
      obtain rfl := hapart name (hin hmem₁) name' (hin hmem₂) hab hba
      rw [Option.some.inj (hmem₁.symm.trans hmem₂)]
    · refine (List.perm_ext_iff_of_nodup (hnodup fields) (hnodup fields')).mpr ?_
      rintro ⟨name, v⟩
      have hiff : ∀ fs : Fields, (name, v) ∈ (membersOf fs).map (fun m => (m.1, ordered le m.2)) ↔
          (Fields.get fs name).map (ordered le) = some v := fun fs =>
        Sorting.mem_sortBy.symm.trans mem_inOrder
      rw [hiff, hiff, hfields]

/-- **Values that say the same have one key**, where their names are told apart. -/
theorem keyOf_congr (hle : Sorting.OrdersBy T.localeLe) (hapart : Apart T.localeLe names)
    {a b : Json} (ha : Within names a) (hb : Within names b) (h : a.value = b.value) :
    keyOf T a = keyOf T b := by
  rw [keyOf, keyOf, ordered_congr hle hapart a b ha hb h]

/-! ## Lists in the order of keys -/

/-- The keys of values in order. -/
theorem map_keyOf_unordered (values : List Json) :
    (unordered T values).map (keyOf T) = Sorting.sortBy T.localeLe (values.map (keyOf T)) :=
  List.map_insertionSort _ _ _ _ fun _ _ _ _ => Iff.rfl

/-- Values in the order of their keys are the values. -/
theorem unordered_perm (values : List Json) : (unordered T values).Perm values :=
  Sorting.sortBy_perm _ values

/-- **Values that say the same come in one order**, where their names and keys are told apart. -/
theorem unordered_congr (hle : Sorting.OrdersBy T.localeLe) (hapart : Apart T.localeLe names)
    {values values' : List Json} (h : ∀ v ∈ values, Within names v)
    (h' : ∀ v ∈ values', Within names v)
    (hkeys : Apart T.localeLe {key | key ∈ values.map (keyOf T)})
    (hperm : (values.map Json.value).Perm (values'.map Json.value)) :
    (unordered T values).map Json.value = (unordered T values').map Json.value := by
  have hkeysPerm : (values.map (keyOf T)).Perm (values'.map (keyOf T)) :=
    (Rearranged.of_map hperm).map_perm fun a ha b hb =>
      keyOf_congr hle hapart (h a ha) (h' b hb)
  have hsorted : (unordered T values).map (keyOf T) = (unordered T values').map (keyOf T) := by
    rw [map_keyOf_unordered, map_keyOf_unordered]
    exact Sorting.sortBy_congr_perm hle (fun a ha b hb => hkeys a ha b hb) hkeysPerm
  exact Json.map_eq_of_map_eq (fun a _ b _ => value_eq_of_keyOf_eq) hsorted

end OpenConditions.Core

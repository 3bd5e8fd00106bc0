import OpenConditions.Lib.CanonicalJson
import OpenConditions.Lib.CodeUnitText
import OpenConditions.Lib.OrderedMap

set_option relaxedAutoImplicit false
set_option autoImplicit false

/-!
# The canonical text of what a program holds

A value a program holds in memory is hashed by its canonical text (`jcs` of
`packages/model/src/kernel/identity.ts`): unpaired surrogates in its strings and keys are replaced
first (`wellFormed`), and what is no JSON value is left out or refused.

An object or array has an identity, which the program tells it from others by; its text does not
depend on it.  Of two fields of one object with one key the first counts.

## Main definitions

* `JsValue` — a value, and the identities of its objects and arrays.
* `readJson` — the JSON value of a value's well-formed text.
* `canonicalize`, `jcs` — the canonical text.

## Main results

* `canonicalize_obj` — the text of an object whose keys are texts, by its members in order.
-/

namespace OpenConditions.Core

open Json (NumberText charsOf memberText separated nameLe)

/-! ## Values -/

/-- A value that a program holds. -/
inductive JsValue where
  | undefined
  | null
  | bool (b : Bool)
  | num (q : ℚ)
  | nan
  | infinite (negative : Bool)
  | str (units : List UInt16)
  /-- An array; one that is made anew has no identity yet. -/
  | arr (ref : Option ℕ) (items : List JsValue)
  /-- An object; one that is made anew has no identity yet. -/
  | obj (ref : Option ℕ) (fields : List (List UInt16 × JsValue))

/-- The identity of an object or array. -/
def JsValue.ref : JsValue → Option ℕ
  | .arr ref _ => ref
  | .obj ref _ => ref
  | _ => none

/-- The entries of an object: of two fields with one key the first. -/
def firstOfEach {K V : Type} [DecidableEq K] : List (K × V) → List (K × V)
  | [] => []
  | e :: entries => e :: (firstOfEach entries).filter fun other => decide (other.1 ≠ e.1)

/-- A number is not finite. -/
inductive NotFinite where
  | notFinite
  deriving DecidableEq, Repr

/-! ## Well-formed values -/

mutual

/-- A value stays as it is: no string or key of it has an unpaired surrogate, and it has no `NaN`,
which equals no value. -/
def isUnchanged : JsValue → Bool
  | .undefined | .null | .bool _ | .num _ | .infinite _ => true
  | .nan => false
  | .str units => Utf16.isPaired units
  | .arr _ items => itemsUnchanged items
  | .obj _ fields => fieldsUnchanged fields

/-- The items of an array stay as they are. -/
def itemsUnchanged : List JsValue → Bool
  | [] => true
  | v :: items => isUnchanged v && itemsUnchanged items

/-- The fields of an object stay as they are. -/
def fieldsUnchanged : List (List UInt16 × JsValue) → Bool
  | [] => true
  | (key, v) :: fields => Utf16.isPaired key && isUnchanged v && fieldsUnchanged fields

end

/-- An item of an object as it is read: it may be absent, or refused. -/
structure ReadItem where
  json : Except NotFinite (Option Json)
  /-- It stays as it is. -/
  unchanged : Bool

/-- The fields of an object with their keys and items replaced by well-formed ones: a field that is
replaced is defined again, in the order of the fields. -/
def settle (entries : List (List UInt16 × ReadItem)) :
    List (String × Except NotFinite (Option Json)) :=
  let named := fun e : List UInt16 × ReadItem => (Utf16.wellFormedText e.1, e.2.json)
  let kept := (entries.filter fun e => Utf16.isPaired e.1).map named
  let replaced :=
    (entries.filter fun e => !(Utf16.isPaired e.1 && e.2.unchanged)).map named
  ((kept ++ replaced).foldl (fun (m : OrderedMap String (Except NotFinite (Option Json))) e =>
    m.set e.1 e.2) .empty).entries

/-- The fields that are there, unless one of them is refused. -/
def presentFields :
    List (String × Except NotFinite (Option Json)) → Except NotFinite (List (String × Json))
  | [] => .ok []
  | (key, item) :: fields =>
    match item, presentFields fields with
    | .error e, _ => .error e
    | .ok _, .error e => .error e
    | .ok json, .ok present => .ok ((json.map fun v => (key, v)).toList ++ present)

mutual

/-- The JSON value of a value's well-formed text; none of no JSON value. -/
def readJson : JsValue → Except NotFinite (Option Json)
  | .undefined => .ok none
  | .null => .ok (some .null)
  | .bool b => .ok (some (.bool b))
  | .num q => .ok (some (.num q))
  | .nan | .infinite _ => .error .notFinite
  | .str units => .ok (some (.str (Utf16.wellFormedText units)))
  | .arr _ items => (readItems items).map fun vs => some (.arr vs)
  | .obj _ fields =>
    (presentFields (settle (firstOfEach (readFields fields)))).map fun fs => some (.obj fs)

/-- The items of an array; what is no JSON value stands as null. -/
def readItems : List JsValue → Except NotFinite (List Json)
  | [] => .ok []
  | v :: items =>
    match readJson v, readItems items with
    | .error e, _ => .error e
    | .ok _, .error e => .error e
    | .ok json, .ok vs => .ok (json.getD .null :: vs)

/-- The fields of an object. -/
def readFields : List (List UInt16 × JsValue) → List (List UInt16 × ReadItem)
  | [] => []
  | (key, v) :: fields => (key, ⟨readJson v, isUnchanged v⟩) :: readFields fields

end

/-- The canonical text of a value's well-formed text; none of no JSON value. -/
def canonicalize (nums : NumberText) (v : JsValue) : Except NotFinite (Option (List Char)) :=
  (readJson v).map fun json => json.map (charsOf nums)

/-- What a hash throws. -/
inductive HashError where
  | typeError (message : List UInt16)
  | notFinite
  deriving DecidableEq, Repr

/-- The canonical text of a value. -/
def jcs (nums : NumberText) (v : JsValue) : Except HashError (List Char) :=
  match canonicalize nums v with
  | .ok (some text) => .ok text
  | .ok none => .error (.typeError (Utf16.unitsOf "value is not JSON-serializable"))
  | .error .notFinite => .error .notFinite

/-! ## Objects whose keys are texts -/

/-- An object made anew of fields whose keys are texts. -/
def newObject (fields : List (String × JsValue)) : JsValue :=
  .obj none (fields.map fun f => (Utf16.unitsOf f.1, f.2))

/-- The members of an object as they are written: those that have a text. -/
def writtenMembers (nums : NumberText) :
    List (String × JsValue) → Except NotFinite (List (List Char))
  | [] => .ok []
  | (key, v) :: fields =>
    match canonicalize nums v, writtenMembers nums fields with
    | .error e, _ => .error e
    | .ok _, .error e => .error e
    | .ok text, .ok members => .ok ((text.map fun t => memberText (key, t)).toList ++ members)

/-- The members of distinct keys are all there. -/
theorem firstOfEach_eq_self {K V : Type} [DecidableEq K] {entries : List (K × V)}
    (hnodup : (entries.map Prod.fst).Nodup) : firstOfEach entries = entries := by
  induction entries with
  | nil => rfl
  | cons e entries ih =>
    rw [List.map_cons, List.nodup_cons] at hnodup
    rw [firstOfEach, ih hnodup.2, List.filter_eq_self.mpr fun other hother => ?_]
    refine decide_eq_true fun heq => hnodup.1 ?_
    rw [← heq]
    exact List.mem_map_of_mem hother

/-- The entries of an object have distinct keys. -/
theorem nodup_firstOfEach {K V : Type} [DecidableEq K] (entries : List (K × V)) :
    ((firstOfEach entries).map Prod.fst).Nodup := by
  induction entries with
  | nil => exact List.nodup_nil
  | cons e entries ih =>
    rw [firstOfEach, List.map_cons, List.nodup_cons]
    refine ⟨fun hmem => ?_, ih.sublist (List.filter_sublist.map _)⟩
    obtain ⟨other, hother, heq⟩ := List.mem_map.mp hmem
    exact of_decide_eq_true (List.mem_filter.mp hother).2 heq

/-- Setting distinct keys anew keeps the entries as they are listed. -/
theorem entries_foldl_set {K V : Type} [DecidableEq K] :
    ∀ (added : List (K × V)) (m : OrderedMap K V), ((m.entries ++ added).map Prod.fst).Nodup →
      (added.foldl (fun m e => m.set e.1 e.2) m).entries = m.entries ++ added := by
  intro added
  induction added with
  | nil => exact fun m _ => (List.append_nil _).symm
  | cons e added ih =>
    intro m hnodup
    have hset : (m.set e.1 e.2).entries = m.entries ++ [e] := by
      have hnot : e.1 ∉ m.entries.map Prod.fst := by
        rw [List.map_append, List.nodup_append] at hnodup
        exact fun hmem => hnodup.2.2 _ hmem _ (by simp) rfl
      clear hnodup ih
      unfold OrderedMap.set
      dsimp only
      generalize m.entries = es at hnot
      induction es with
      | nil => rfl
      | cons x es ih =>
        rw [List.map_cons, List.mem_cons, not_or] at hnot
        rw [OrderedMap.setEntries, if_neg (Ne.symm hnot.1), ih hnot.2, List.cons_append]
    rw [List.foldl_cons, ih _ (by rwa [hset, List.append_assoc]), hset, List.append_assoc]
    rfl

/-- Setting what is there changes nothing. -/
theorem entries_foldl_set_of_mem {K V : Type} [DecidableEq K] :
    ∀ (again : List (K × V)) (m : OrderedMap K V), (∀ e ∈ again, e ∈ m.entries) →
      (again.foldl (fun m e => m.set e.1 e.2) m).entries = m.entries := by
  intro again
  induction again with
  | nil => exact fun m _ => rfl
  | cons e again ih =>
    intro m hmem
    have hset : (m.set e.1 e.2).entries = m.entries := by
      have hhere := hmem e List.mem_cons_self
      have hnodup := m.nodup
      unfold OrderedMap.set
      dsimp only
      generalize m.entries = es at hhere hnodup
      induction es with
      | nil => cases hhere
      | cons x es ih =>
        rw [List.map_cons, List.nodup_cons] at hnodup
        rcases List.mem_cons.mp hhere with rfl | hhere
        · rw [OrderedMap.setEntries, if_pos rfl]
        · have hne : x.1 ≠ e.1 := fun heq => hnodup.1 (heq ▸ List.mem_map_of_mem hhere)
          rw [OrderedMap.setEntries, if_neg hne, ih hhere hnodup.2]
    rw [List.foldl_cons, ih _ (by rw [hset]; exact fun x hx => hmem x (List.mem_cons_of_mem _ hx)),
      hset]

/-- The fields of an object whose keys are texts stay under them. -/
theorem settle_readFields {fields : List (String × JsValue)}
    (hnodup : (fields.map Prod.fst).Nodup) :
    settle (firstOfEach (readFields (fields.map fun f => (Utf16.unitsOf f.1, f.2)))) =
      fields.map fun f => (f.1, readJson f.2) := by
  have hread : readFields (fields.map fun f => (Utf16.unitsOf f.1, f.2)) =
      fields.map fun f => (Utf16.unitsOf f.1, ⟨readJson f.2, isUnchanged f.2⟩) := by
    clear hnodup
    induction fields with
    | nil => rfl
    | cons f fields ih => rw [List.map_cons, readFields, ih, List.map_cons]
  have hkeys : ((fields.map fun f => (Utf16.unitsOf f.1,
      (⟨readJson f.2, isUnchanged f.2⟩ : ReadItem))).map Prod.fst).Nodup := by
    rw [List.map_map]
    have hunits := hnodup.map Utf16.unitsOf_injective
    rwa [List.map_map] at hunits
  rw [hread, firstOfEach_eq_self hkeys]
  have hkept : ((fields.map fun f => (Utf16.unitsOf f.1,
      (⟨readJson f.2, isUnchanged f.2⟩ : ReadItem))).filter fun e => Utf16.isPaired e.1).map
        (fun e => (Utf16.wellFormedText e.1, e.2.json)) =
      fields.map fun f => (f.1, readJson f.2) := by
    rw [List.filter_eq_self.mpr, List.map_map]
    · refine List.map_congr_left fun f _ => ?_
      rw [Function.comp_apply, (Utf16.wellFormedText_unitsOf f.1).1]
    · intro e he
      obtain ⟨f, -, rfl⟩ := List.mem_map.mp he
      exact (Utf16.wellFormedText_unitsOf f.1).2
  have hnames : ((fields.map fun f => (f.1, readJson f.2)).map Prod.fst).Nodup := by
    rw [List.map_map]
    exact hnodup
  unfold settle
  dsimp only
  rw [hkept, List.foldl_append, entries_foldl_set_of_mem, entries_foldl_set _ _ hnames]
  · rfl
  · rw [entries_foldl_set _ _ hnames]
    intro e he
    obtain ⟨x, hx, rfl⟩ := List.mem_map.mp he
    obtain ⟨f, hf, rfl⟩ := List.mem_map.mp (List.mem_filter.mp hx).1
    rw [(Utf16.wellFormedText_unitsOf f.1).1]
    exact List.mem_append_right _ (List.mem_map.mpr ⟨f, hf, rfl⟩)

/-- The JSON value of what a value reads as, if it does. -/
def jsonOf (v : JsValue) : Option Json := (readJson v).toOption.join

/-- A value that is not refused reads as its JSON value. -/
theorem readJson_eq_jsonOf {v : JsValue} (h : readJson v ≠ .error .notFinite) :
    readJson v = .ok (jsonOf v) := by
  unfold jsonOf
  cases hread : readJson v with
  | error e => exact absurd hread h
  | ok json => rfl

/-- A value is refused exactly when it has no text and is. -/
theorem canonicalize_error_iff {nums : NumberText} {v : JsValue} :
    canonicalize nums v = .error .notFinite ↔ readJson v = .error .notFinite := by
  unfold canonicalize
  cases readJson v with
  | error e =>
    cases e
    exact ⟨fun _ => rfl, fun _ => rfl⟩
  | ok json => exact ⟨fun h => (by cases h), fun h => (by cases h)⟩

/-- The fields that are there, by the first one. -/
theorem presentFields_cons (e : String × Except NotFinite (Option Json))
    (fields : List (String × Except NotFinite (Option Json))) :
    presentFields (e :: fields) = e.2.bind fun json => (presentFields fields).map fun present =>
      (json.map fun v => (e.1, v)).toList ++ present := by
  obtain ⟨key, item⟩ := e
  cases item with
  | error err => rfl
  | ok json =>
    cases hrest : presentFields fields <;>
      simp only [presentFields, hrest, Except.bind, Except.map]

/-- Fields of which one is refused are. -/
theorem presentFields_error {fields : List (String × JsValue)}
    (h : ∃ f ∈ fields, readJson f.2 = .error .notFinite) :
    presentFields (fields.map fun f => (f.1, readJson f.2)) = .error .notFinite := by
  induction fields with
  | nil => obtain ⟨f, hf, -⟩ := h; cases hf
  | cons g fields ih =>
    rw [List.map_cons, presentFields_cons]
    dsimp only
    cases hread : readJson g.2 with
    | error e => rfl
    | ok json =>
      obtain ⟨f, hf, hbad⟩ := h
      rcases List.mem_cons.mp hf with rfl | hf
      · rw [hread] at hbad
        cases hbad
      · rw [ih ⟨f, hf, hbad⟩]
        rfl

/-- Fields of which none is refused are there with their values. -/
theorem presentFields_ok {fields : List (String × JsValue)}
    (h : ∀ f ∈ fields, readJson f.2 ≠ .error .notFinite) :
    presentFields (fields.map fun f => (f.1, readJson f.2)) =
      .ok (fields.filterMap fun f => (jsonOf f.2).map fun v => (f.1, v)) := by
  induction fields with
  | nil => rfl
  | cons g fields ih =>
    rw [List.map_cons, presentFields_cons, ih fun f hf => h f (List.mem_cons_of_mem _ hf)]
    dsimp only
    rw [readJson_eq_jsonOf (h g List.mem_cons_self), List.filterMap_cons]
    cases jsonOf g.2 <;> rfl

/-- Members of which one is refused are. -/
theorem writtenMembers_error {nums : NumberText} {fields : List (String × JsValue)}
    (h : ∃ f ∈ fields, readJson f.2 = .error .notFinite) :
    writtenMembers nums fields = .error .notFinite := by
  induction fields with
  | nil => obtain ⟨f, hf, -⟩ := h; cases hf
  | cons g fields ih =>
    rw [writtenMembers]
    cases htext : canonicalize nums g.2 with
    | error e => rfl
    | ok text =>
      obtain ⟨f, hf, hbad⟩ := h
      rcases List.mem_cons.mp hf with rfl | hf
      · rw [Iff.mpr canonicalize_error_iff hbad] at htext
        cases htext
      · rw [ih ⟨f, hf, hbad⟩]

/-- Members of which none is refused are written with their texts. -/
theorem writtenMembers_ok {nums : NumberText} {fields : List (String × JsValue)}
    (h : ∀ f ∈ fields, readJson f.2 ≠ .error .notFinite) :
    writtenMembers nums fields = .ok ((fields.filterMap fun f =>
      (jsonOf f.2).map fun v => (f.1, v)).map fun m => memberText (m.1, charsOf nums m.2)) := by
  induction fields with
  | nil => rfl
  | cons g fields ih =>
    have htext : canonicalize nums g.2 = .ok ((jsonOf g.2).map (charsOf nums)) := by
      rw [canonicalize, readJson_eq_jsonOf (h g List.mem_cons_self)]
      rfl
    rw [writtenMembers, htext, ih fun f hf => h f (List.mem_cons_of_mem _ hf),
      List.filterMap_cons]
    cases jsonOf g.2 <;> rfl

/-- The members of distinct names are all there. -/
theorem membersOf_eq_self {fields : List (String × Json)}
    (hnodup : (fields.map Prod.fst).Nodup) : Json.membersOf fields = fields := by
  induction fields with
  | nil => rfl
  | cons f fields ih =>
    obtain ⟨name, v⟩ := f
    rw [List.map_cons, List.nodup_cons] at hnodup
    rw [Json.membersOf, ih hnodup.2, List.filter_eq_self.mpr fun other hother => ?_]
    refine decide_eq_true fun heq => hnodup.1 ?_
    rw [← heq]
    exact List.mem_map.mpr ⟨other, hother, rfl⟩

/-- The fields that have a value have distinct names where all fields do. -/
theorem nodup_filterMap {fields : List (String × JsValue)} (hnodup : (fields.map Prod.fst).Nodup)
    (value : JsValue → Option Json) :
    ((fields.filterMap fun f => (value f.2).map fun v => (f.1, v)).map Prod.fst).Nodup := by
  refine hnodup.sublist ?_
  clear hnodup
  induction fields with
  | nil => exact List.Sublist.slnil
  | cons f fields ih =>
    rw [List.filterMap_cons, List.map_cons]
    cases value f.2 with
    | none => exact ih.cons _
    | some v => exact ih.cons_cons _

/-- The fields that have a value are in order where all fields are. -/
theorem sortBy_filterMap {fields : List (String × JsValue)}
    (hnodup : (fields.map Prod.fst).Nodup) (value : JsValue → Option Json) :
    Sorting.sortBy nameLe (fields.filterMap fun f => (value f.2).map fun v => (f.1, v)) =
      (Sorting.sortBy nameLe fields).filterMap fun f => (value f.2).map fun v => (f.1, v) := by
  refine Sorting.eq_of_perm_of_pairwise ?_
    ((Sorting.sortBy_perm _ _).trans ((Sorting.sortBy_perm _ _).filterMap _).symm)
    (Sorting.sortBy_pairwise Json.orders_nameLe _) ?_
  · intro a ha b hb hab hba
    have hnames : a.1 = b.1 :=
      Utf16.codeUnits_injective (le_antisymm (of_decide_eq_true hab) (of_decide_eq_true hba))
    exact List.inj_on_of_nodup_map (nodup_filterMap hnodup value)
      (Sorting.mem_sortBy.mp ha) (Sorting.mem_sortBy.mp hb) hnames
  · refine (Sorting.sortBy_pairwise Json.orders_nameLe fields).filterMap _ ?_
    intro a b hab x hx y hy
    obtain ⟨v, -, rfl⟩ := Option.map_eq_some_iff.mp hx
    obtain ⟨w, -, rfl⟩ := Option.map_eq_some_iff.mp hy
    exact hab

/-- **The canonical text of an object whose keys are texts is made of its members in order.** -/
theorem canonicalize_obj {nums : NumberText} {fields : List (String × JsValue)}
    (hnodup : (fields.map Prod.fst).Nodup) :
    canonicalize nums (newObject fields) =
      (writtenMembers nums (Sorting.sortBy nameLe fields)).map fun members =>
        some ('\x7b' :: separated '\x7d' members) := by
  have hread : canonicalize nums (newObject fields) =
      (presentFields (fields.map fun f => (f.1, readJson f.2))).map fun fs =>
        some (charsOf nums (.obj fs)) := by
    rw [canonicalize, newObject, readJson, settle_readFields hnodup]
    cases presentFields (fields.map fun f => (f.1, readJson f.2)) <;> rfl
  rw [hread]
  by_cases hbad : ∃ f ∈ fields, readJson f.2 = .error .notFinite
  · obtain ⟨f, hf, herr⟩ := hbad
    rw [presentFields_error ⟨f, hf, herr⟩,
      writtenMembers_error ⟨f, Sorting.mem_sortBy.mpr hf, herr⟩]
    rfl
  · have hgood : ∀ f ∈ fields, readJson f.2 ≠ .error .notFinite :=
      fun f hf herr => hbad ⟨f, hf, herr⟩
    rw [presentFields_ok hgood, writtenMembers_ok fun f hf => hgood f (Sorting.mem_sortBy.mp hf),
      ← sortBy_filterMap hnodup]
    show Except.ok (some _) = Except.ok (some _)
    rw [Json.charsOf_obj, Json.sortedMembers, membersOf_eq_self (nodup_filterMap hnodup jsonOf)]

end OpenConditions.Core

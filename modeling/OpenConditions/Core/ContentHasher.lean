import OpenConditions.Core.ChangeKinds
import OpenConditions.Core.WellFormed
import OpenConditions.Lib.DecimalText
import OpenConditions.Lib.MemoTable

set_option relaxedAutoImplicit false
set_option autoImplicit false

/-!
# Hashing the records of one write

The records of one write often share a location or an attribution; a hasher of a write makes the
canonical text of such an object once and writes the text of a record around it
(`packages/model/src/content-hash.ts`).

A record is what a program holds, as it comes: any class, any fields, of any values.

## Main definitions

* `ContentHashing.contentOf` — the content fields of a record.
* `ContentHashing.contentHash` — the hash of one record.
* `ContentHashing.contentHasher` — the hashes of the records of one write.

## Main results

* `ContentHashing.objectText_spec` — an object is written as it is canonicalised, whatever was
  made before.
* `ContentHashing.contentHasher_eq` — the hashes of a write are those of its records.
-/

namespace OpenConditions.Core.ContentHashing

open Json (NumberText separated memberText nameLe quoted)
open ChangeKinds (RecordClass classNamed contentFields derivedFields)

/-! ## Content -/

/-- The fields of a record, as they are listed. -/
abbrev Record := List (List UInt16 × JsValue)

/-- A field of an object. -/
def fieldNamed (fields : Record) (name : String) : JsValue :=
  (OrderedMap.getEntries (Utf16.unitsOf name) fields).getD .undefined

/-- The fields of an object or array; other values have none. -/
def entriesOf : JsValue → Option Record
  | .obj _ fields => some (firstOfEach fields)
  | .arr _ items =>
    some (items.zipIdx.map fun item => (Utf16.unitsOf (toString item.2), item.1))
  | _ => none

mutual

/-- A value as a string. -/
def stringOf (nums : NumberText) : JsValue → List UInt16
  | .undefined => Utf16.unitsOf "undefined"
  | .null => Utf16.unitsOf "null"
  | .bool b => Utf16.unitsOf (if b then "true" else "false")
  | .num q => Utf16.unitsOf (String.ofList (nums.text q))
  | .nan => Utf16.unitsOf "NaN"
  | .infinite negative => Utf16.unitsOf (if negative then "-Infinity" else "Infinity")
  | .str units => units
  | .arr _ items => (Utf16.unitsOf ",").intercalate (itemStrings nums items)
  | .obj _ _ => Utf16.unitsOf "[object Object]"

/-- The items of an array as strings. -/
def itemStrings (nums : NumberText) : List JsValue → List (List UInt16)
  | [] => []
  | .undefined :: items => [] :: itemStrings nums items
  | .null :: items => [] :: itemStrings nums items
  | v :: items => stringOf nums v :: itemStrings nums items

end

/-- The names that every table inherits. -/
def inheritedNames : List String :=
  ["constructor", "__defineGetter__", "__defineSetter__", "hasOwnProperty", "__lookupGetter__",
    "__lookupSetter__", "isPrototypeOf", "propertyIsEnumerable", "toString", "valueOf",
    "__proto__", "toLocaleString"]

/-- The roles of keys: some are hashed, some are not. -/
structure Roles where
  content : List String
  derived : List String

/-- The roles of the keys of a class. -/
def rolesOf (cls : JsValue) : Option Roles :=
  match cls with
  | .str units =>
    match ([RecordClass.situation, .feature, .observation, .offer].find? fun c =>
        Utf16.unitsOf c.name == units) with
    | some c => some ⟨contentFields c, derivedFields c⟩
    -- A table of classes has what it inherits, under which no key is hashed.
    | none => if (inheritedNames.map Utf16.unitsOf).contains units then some ⟨[], []⟩ else none
  | _ => none

/-- The roles of the keys of a provenance. -/
def provenanceRoles : Roles := ⟨Core.provenanceContent, Core.provenanceDerived⟩

/-- The name among some that a key is. -/
def nameIn (names : List String) (key : List UInt16) : Option String :=
  names.find? fun name => Utf16.unitsOf name == key

/-- A value is there. -/
def isDefined : JsValue → Bool
  | .undefined => false
  | _ => true

/-- The content fields among those of an object. -/
def pick (roles : Roles) (place : List UInt16) :
    Record → Except HashError (List (String × JsValue))
  | [] => .ok []
  | (key, v) :: fields =>
    match nameIn roles.content key with
    | some name =>
      (pick roles place fields).map fun picked =>
        if isDefined v then (name, v) :: picked else picked
    | none =>
      if (nameIn (roles.derived ++ inheritedNames) key).isSome then pick roles place fields
      else
        .error (.typeError
          (place ++ Utf16.unitsOf ": unclassified key \"" ++ key ++ Utf16.unitsOf "\""))

/-- The content fields of a record. -/
def contentOf (nums : NumberText) (record : Record) :
    Except HashError (List (String × JsValue)) :=
  let cls := fieldNamed record "class"
  match rolesOf cls with
  | none => .error (.typeError (Utf16.unitsOf "unknown class " ++ stringOf nums cls))
  | some roles =>
    (pick roles (stringOf nums cls) (firstOfEach record)).bind fun content =>
      match entriesOf (fieldNamed record "provenance") with
      | none => .ok content
      | some entries =>
        (pick provenanceRoles (Utf16.unitsOf "provenance") entries).map fun own =>
          OrderedMap.setEntries "provenance" (newObject own) content

/-- The hash of a record. -/
def contentHash {H : Type} (nums : NumberText) (sha256Hex : List Char → H) (record : Record) :
    Except HashError H :=
  (contentOf nums record).bind fun content => (jcs nums (newObject content)).map sha256Hex

/-! ## The hasher of a write -/

/-- The texts that were made, by the identities of their objects. -/
abbrev Texts := OrderedMap ℕ (Option (List Char))

/-- What came of a text, and the texts that are made then. -/
abbrev Made (T : Type) := Except NotFinite T × Texts

/-- The text of an object that records share. -/
def shared (nums : NumberText) (v : JsValue) (texts : Texts) : Made (Option (List Char)) :=
  MemoTable.ask JsValue.ref (canonicalize nums) v texts

/-- The members of an object as they are written, each with the text that is made of it. -/
def membersText (member : String → JsValue → Texts → Made (Option (List Char))) :
    List (String × JsValue) → Texts → Made (List (List Char))
  | [], texts => (.ok [], texts)
  | (key, v) :: fields, texts =>
    match member key v texts with
    | (.error e, texts) => (.error e, texts)
    | (.ok text, texts) =>
      match membersText member fields texts with
      | (.error e, texts) => (.error e, texts)
      | (.ok members, texts) =>
        (.ok ((text.map fun t => memberText (key, t)).toList ++ members), texts)

/-- The text of an object, its members in order. -/
def objectText (member : String → JsValue → Texts → Made (Option (List Char)))
    (fields : List (String × JsValue)) (texts : Texts) : Made (List Char) :=
  let made := membersText member (Sorting.sortBy nameLe fields) texts
  (made.1.map fun members => '\x7b' :: separated '\x7d' members, made.2)

/-- The same value: objects and arrays by their identities. -/
def isSame : JsValue → JsValue → Bool
  | .undefined, .undefined | .null, .null => true
  | .bool a, .bool b => a == b
  | .num p, .num q => decide (p = q)
  | .infinite a, .infinite b => a == b
  | .str s, .str t => s == t
  | .arr (some a) _, .arr (some b) _ => a == b
  | .obj (some a) _, .obj (some b) _ => a == b
  | _, _ => false

/-- What the language calls an object. -/
def isObject : JsValue → Bool
  | .null | .arr _ _ | .obj _ _ => true
  | _ => false

/-- The fields of an object by their names. -/
def namedFields : JsValue → List (String × JsValue)
  | .obj _ fields => fields.map fun f => (Utf16.wellFormedText f.1, f.2)
  | _ => []

/-- The text of a member of a provenance. -/
def provenanceMember (nums : NumberText) (key : String) (v : JsValue) (texts : Texts) :
    Made (Option (List Char)) :=
  if key = "attribution" then shared nums v texts else (canonicalize nums v, texts)

/-- The text of a member of a record's content. -/
def recordMember (nums : NumberText) (provenance : JsValue) (key : String) (v : JsValue)
    (texts : Texts) : Made (Option (List Char)) :=
  if key = "location" then shared nums v texts
  -- The content has a provenance made anew when it is an object.
  else if key = "provenance" ∧ isSame v provenance = false ∧ isObject provenance = true then
    let made := objectText (provenanceMember nums) (namedFields v) texts
    (made.1.map some, made.2)
  else (canonicalize nums v, texts)

/-- One hash of a write, and the texts that are made then. -/
def hashRecord {H : Type} (nums : NumberText) (sha256Hex : List Char → H) (record : Record)
    (texts : Texts) : Except HashError H × Texts :=
  match contentOf nums record with
  | .error e => (.error e, texts)
  | .ok content =>
    match objectText (recordMember nums (fieldNamed record "provenance")) content texts with
    | (.error _, texts) => (.error .notFinite, texts)
    | (.ok text, texts) => (.ok (sha256Hex text), texts)

/-- The hashes of records, one after another. -/
def hashRecords {H : Type} (nums : NumberText) (sha256Hex : List Char → H) :
    List Record → Texts → List (Except HashError H)
  | [], _ => []
  | record :: records, texts =>
    let hashed := hashRecord nums sha256Hex record texts
    hashed.1 :: hashRecords nums sha256Hex records hashed.2

/-- The hashes of the records of one write. -/
def contentHasher {H : Type} (nums : NumberText) (sha256Hex : List Char → H)
    (records : List Record) : List (Except HashError H) :=
  hashRecords nums sha256Hex records .empty

/-! ## What records share -/

/-- The attribution of a provenance. -/
def attributionOf (provenance : JsValue) : JsValue :=
  fieldNamed ((entriesOf provenance).getD []) "attribution"

/-- The parts of a record that others may share. -/
def sharedParts (record : Record) : List JsValue :=
  [fieldNamed record "location", attributionOf (fieldNamed record "provenance")]

/-- The shared parts of the records of a write do not change while it goes on: two with one
identity are one value. -/
def Unmodified (records : List Record) : Prop :=
  MemoTable.KeyedOnce JsValue.ref (records.flatMap sharedParts)

/-! ## The content of a record -/

section Content

variable {roles : Roles} {place : List UInt16} {fields : Record}
  {picked : List (String × JsValue)} {name : String} {v : JsValue}

/-- A key is the name that it is found as. -/
theorem unitsOf_of_nameIn {names : List String} {key : List UInt16}
    (h : nameIn names key = some name) : Utf16.unitsOf name = key :=
  eq_of_beq (List.find?_some (p := fun name => Utf16.unitsOf name == key) h)

/-- What is picked of one more field: it, or nothing of it. -/
theorem pick_cons {f : List UInt16 × JsValue} (h : pick roles place (f :: fields) = .ok picked) :
    ∃ rest, pick roles place fields = .ok rest ∧
      (picked = rest ∨ ∃ name, Utf16.unitsOf name = f.1 ∧ picked = (name, f.2) :: rest) := by
  obtain ⟨key, w⟩ := f
  rw [pick] at h
  cases hname : nameIn roles.content key with
  | none =>
    rw [hname] at h
    dsimp only at h
    split_ifs at h with hknown
    exact ⟨picked, h, Or.inl rfl⟩
  | some found =>
    rw [hname] at h
    cases hrest : pick roles place fields with
    | error e =>
      rw [hrest] at h
      cases h
    | ok rest =>
      rw [hrest] at h
      obtain rfl : (if isDefined w then (found, w) :: rest else rest) = picked := Except.ok.inj h
      refine ⟨rest, rfl, ?_⟩
      split_ifs with hdefined
      · exact Or.inr ⟨found, unitsOf_of_nameIn hname, rfl⟩
      · exact Or.inl rfl

/-- A content field is a field. -/
theorem mem_of_mem_pick (h : pick roles place fields = .ok picked) (hmem : (name, v) ∈ picked) :
    (Utf16.unitsOf name, v) ∈ fields := by
  induction fields generalizing picked with
  | nil =>
    obtain rfl : [] = picked := Except.ok.inj h
    cases hmem
  | cons f fields ih =>
    obtain ⟨rest, hrest, rfl | ⟨found, hfound, rfl⟩⟩ := pick_cons h
    · exact List.mem_cons_of_mem _ (ih hrest hmem)
    · rcases List.mem_cons.mp hmem with heq | hmem
      · obtain ⟨rfl, rfl⟩ := Prod.mk.inj heq
        rw [hfound]
        exact List.mem_cons_self
      · exact List.mem_cons_of_mem _ (ih hrest hmem)

/-- The content fields have distinct names. -/
theorem nodup_pick (h : pick roles place fields = .ok picked)
    (hnodup : (fields.map Prod.fst).Nodup) : (picked.map Prod.fst).Nodup := by
  induction fields generalizing picked with
  | nil =>
    obtain rfl : [] = picked := Except.ok.inj h
    exact List.nodup_nil
  | cons f fields ih =>
    rw [List.map_cons, List.nodup_cons] at hnodup
    obtain ⟨rest, hrest, rfl | ⟨found, hfound, rfl⟩⟩ := pick_cons h
    · exact ih hrest hnodup.2
    · rw [List.map_cons, List.nodup_cons]
      refine ⟨fun hmem => hnodup.1 ?_, ih hrest hnodup.2⟩
      obtain ⟨other, hother, heq⟩ := List.mem_map.mp hmem
      have hfield : (Utf16.unitsOf other.1, other.2) ∈ fields := mem_of_mem_pick hrest hother
      rw [← hfound]
      dsimp only at heq ⊢
      rw [← heq]
      exact List.mem_map_of_mem hfield

/-- An entry of an object is its field. -/
theorem getEntries_of_mem_firstOfEach {key : List UInt16} (h : (key, v) ∈ firstOfEach fields) :
    OrderedMap.getEntries key fields = some v := by
  induction fields with
  | nil => cases h
  | cons f fields ih =>
    rw [firstOfEach] at h
    rcases List.mem_cons.mp h with rfl | h
    · rw [OrderedMap.getEntries, if_pos rfl]
    · obtain ⟨hmem, hne⟩ := List.mem_filter.mp h
      rw [OrderedMap.getEntries, if_neg (Ne.symm (of_decide_eq_true hne)), ih hmem]

/-- The keys of an object or array are distinct. -/
theorem nodup_entriesOf {entries : Record} (h : entriesOf v = some entries) :
    (entries.map Prod.fst).Nodup := by
  cases v with
  | obj ref fields =>
    obtain rfl : firstOfEach fields = entries := Option.some.inj h
    exact nodup_firstOfEach fields
  | arr ref items =>
    obtain rfl := Option.some.inj h
    have hkeys : ((items.zipIdx.map fun item =>
        (Utf16.unitsOf (toString item.2), item.1)).map Prod.fst) =
        (List.range items.length).map fun i => Utf16.unitsOf (toString i) := by
      rw [List.range_eq_range', ← List.zipIdx_map_snd, List.map_map, List.map_map]
      rfl
    rw [hkeys]
    exact List.nodup_range.map fun i j hij =>
      Utf16.repr_injective (Utf16.unitsOf_injective hij)
  | _ => cases h

/-- A field after one of a name is given: the given one, or another. -/
theorem mem_setEntries {content : List (String × JsValue)} {k : String} {w : JsValue}
    (hnodup : (content.map Prod.fst).Nodup)
    (h : (name, v) ∈ OrderedMap.setEntries k w content) :
    name = k ∧ v = w ∨ name ≠ k ∧ (name, v) ∈ content := by
  have hget := (OrderedMap.getEntries_eq_some_iff
    (OrderedMap.nodup_setEntries k w content hnodup)).mpr h
  rw [OrderedMap.getEntries_setEntries] at hget
  split_ifs at hget with hname
  · exact Or.inl ⟨hname, (Option.some.inj hget).symm⟩
  · exact Or.inr ⟨hname, (OrderedMap.getEntries_eq_some_iff hnodup).mp hget⟩

/-- What stands under a name in a record's content: the record's field; but of a provenance that is
an object, what is picked of it. -/
structure ContentOf (record : Record) (content : List (String × JsValue)) : Prop where
  nodup : (content.map Prod.fst).Nodup
  field : ∀ name v, (name, v) ∈ content →
    v = fieldNamed record name ∧ (name = "provenance" → entriesOf v = none) ∨
      name = "provenance" ∧ ∃ entries own, entriesOf (fieldNamed record name) = some entries ∧
        pick provenanceRoles (Utf16.unitsOf "provenance") entries = .ok own ∧ v = newObject own

/-- The content of a record is of the record. -/
theorem contentOf_spec {nums : NumberText} {record : Record} {content : List (String × JsValue)}
    (h : contentOf nums record = .ok content) : ContentOf record content := by
  unfold contentOf at h
  dsimp only at h
  cases hroles : rolesOf (fieldNamed record "class") with
  | none =>
    rw [hroles] at h
    cases h
  | some roles =>
    rw [hroles] at h
    dsimp only at h
    cases hpick : pick roles (stringOf nums (fieldNamed record "class")) (firstOfEach record) with
    | error e =>
      rw [hpick] at h
      cases h
    | ok base =>
      have hbase : (base.map Prod.fst).Nodup := nodup_pick hpick (nodup_firstOfEach record)
      have hfield : ∀ name v, (name, v) ∈ base → v = fieldNamed record name := by
        intro name v hmem
        rw [fieldNamed, getEntries_of_mem_firstOfEach (mem_of_mem_pick hpick hmem)]
        rfl
      rw [hpick] at h
      dsimp only [Except.bind] at h
      cases hentries : entriesOf (fieldNamed record "provenance") with
      | none =>
        rw [hentries] at h
        obtain rfl : base = content := Except.ok.inj h
        refine ⟨hbase, fun name v hmem => Or.inl ⟨hfield name v hmem, ?_⟩⟩
        rintro rfl
        rw [hfield _ v hmem, hentries]
      | some entries =>
        rw [hentries] at h
        dsimp only at h
        cases hown : pick provenanceRoles (Utf16.unitsOf "provenance") entries with
        | error e =>
          rw [hown] at h
          cases h
        | ok own =>
          rw [hown] at h
          obtain rfl : OrderedMap.setEntries "provenance" (newObject own) base = content :=
            Except.ok.inj h
          refine ⟨OrderedMap.nodup_setEntries _ _ _ hbase, fun name v hmem => ?_⟩
          rcases mem_setEntries hbase hmem with ⟨rfl, rfl⟩ | ⟨hname, hmem⟩
          · exact Or.inr ⟨rfl, entries, own, hentries, hown, rfl⟩
          · exact Or.inl ⟨hfield name v hmem, fun heq => absurd heq hname⟩

end Content

/-! ## The text of an object -/

section Texts

variable {nums : NumberText} {ok : Texts → Prop}
  {member : String → JsValue → Texts → Made (Option (List Char))}
  {fields : List (String × JsValue)} {texts : Texts} {used : List JsValue}

/-- Each member is written as it is canonicalised, and keeps a condition on the texts that are
made. -/
def Writes (nums : NumberText) (ok : Texts → Prop)
    (member : String → JsValue → Texts → Made (Option (List Char)))
    (fields : List (String × JsValue)) : Prop :=
  ∀ f ∈ fields, ∀ texts, ok texts →
    (member f.1 f.2 texts).1 = canonicalize nums f.2 ∧ ok (member f.1 f.2 texts).2

/-- The members that are written, one after another. -/
theorem membersText_spec (h : Writes nums ok member fields) (hok : ok texts) :
    (membersText member fields texts).1 = writtenMembers nums fields ∧
      ok (membersText member fields texts).2 := by
  induction fields generalizing texts with
  | nil => exact ⟨rfl, hok⟩
  | cons f fields ih =>
    obtain ⟨key, v⟩ := f
    obtain ⟨htext, hok⟩ := h (key, v) List.mem_cons_self texts hok
    rw [membersText, writtenMembers, ← htext]
    rcases hmade : member key v texts with ⟨made, then_⟩
    rw [hmade] at hok
    cases made with
    | error e => exact ⟨rfl, hok⟩
    | ok text =>
      obtain ⟨hrest, hok⟩ := ih (fun f hf => h f (List.mem_cons_of_mem _ hf)) hok
      rw [← hrest]
      dsimp only
      rcases hmembers : membersText member fields then_ with ⟨members, last⟩
      rw [hmembers] at hok
      cases members with
      | error e => exact ⟨rfl, hok⟩
      | ok members => exact ⟨rfl, hok⟩

/-- **An object is written as it is canonicalised**, if its members are. -/
theorem objectText_spec (hnodup : (fields.map Prod.fst).Nodup)
    (h : Writes nums ok member fields) (hok : ok texts) :
    (objectText member fields texts).1.map some = canonicalize nums (newObject fields) ∧
      ok (objectText member fields texts).2 := by
  have hsorted : Writes nums ok member (Sorting.sortBy nameLe fields) :=
    fun f hf => h f (Sorting.mem_sortBy.mp hf)
  obtain ⟨hmembers, hok⟩ := membersText_spec hsorted hok
  refine ⟨?_, hok⟩
  rw [canonicalize_obj hnodup, ← hmembers]
  unfold objectText
  dsimp only
  cases (membersText member (Sorting.sortBy nameLe fields) texts).1 <;> rfl

/-- The texts that were made are those of shared parts. -/
def Kept (nums : NumberText) (used : List JsValue) : Texts → Prop :=
  MemoTable.Faithful JsValue.ref (canonicalize nums) used

/-- A shared part is written as it is canonicalised. -/
theorem shared_spec {v : JsValue} (hone : MemoTable.KeyedOnce JsValue.ref used) (hv : v ∈ used)
    (hok : Kept nums used texts) :
    (shared nums v texts).1 = canonicalize nums v ∧ Kept nums used (shared nums v texts).2 :=
  ⟨MemoTable.ask_fst hok hone hv, MemoTable.Faithful.ask hok hv⟩

/-- The fields of an object made anew are those it is made of. -/
theorem namedFields_newObject (fields : List (String × JsValue)) :
    namedFields (newObject fields) = fields := by
  rw [newObject, namedFields, List.map_map]
  conv_rhs => rw [← List.map_id fields]
  refine List.map_congr_left fun f _ => ?_
  rw [Function.comp_apply, (Utf16.wellFormedText_unitsOf f.1).1]
  rfl

/-- What has no fields to pick is the same as itself where the language calls it an object. -/
theorem isSame_self {v : JsValue} (h : entriesOf v = none) :
    ¬(isSame v v = false ∧ isObject v = true) := by
  rintro ⟨hsame, hobject⟩
  cases v with
  | null => cases hsame
  | arr ref items => cases h
  | obj ref fields => cases h
  | _ => cases hobject

/-- The members of a provenance's content are written as they are canonicalised. -/
theorem writes_provenanceMember {provenance : JsValue} {entries : Record}
    {own : List (String × JsValue)} (hone : MemoTable.KeyedOnce JsValue.ref used)
    (hused : attributionOf provenance ∈ used) (hentries : entriesOf provenance = some entries)
    (hown : pick provenanceRoles (Utf16.unitsOf "provenance") entries = .ok own) :
    Writes nums (Kept nums used) (provenanceMember nums) own := by
  rintro ⟨key, v⟩ hf texts hok
  unfold provenanceMember
  dsimp only
  split_ifs with hkey
  · subst hkey
    refine shared_spec hone ?_ hok
    have hv : attributionOf provenance = v := by
      rw [attributionOf, hentries, Option.getD_some, fieldNamed,
        (OrderedMap.getEntries_eq_some_iff (nodup_entriesOf hentries)).mpr
          (mem_of_mem_pick hown hf)]
      rfl
    rwa [← hv]
  · exact ⟨rfl, hok⟩

/-- The members of a record's content are written as they are canonicalised. -/
theorem writes_recordMember {record : Record} {content : List (String × JsValue)}
    (hone : MemoTable.KeyedOnce JsValue.ref used) (hused : ∀ v ∈ sharedParts record, v ∈ used)
    (hcontent : ContentOf record content) :
    Writes nums (Kept nums used) (recordMember nums (fieldNamed record "provenance")) content := by
  rintro ⟨key, v⟩ hf texts hok
  unfold recordMember
  dsimp only
  split_ifs with hlocation hprovenance
  · subst hlocation
    refine shared_spec hone (hused v ?_) hok
    rcases hcontent.field _ v hf with ⟨rfl, -⟩ | ⟨hname, -⟩
    · exact List.mem_cons_self
    · exact absurd hname (by decide)
  · obtain ⟨rfl, hnew, hobject⟩ := hprovenance
    rcases hcontent.field _ v hf with ⟨rfl, hnone⟩ | ⟨-, entries, own, hentries, hown, rfl⟩
    · exact absurd ⟨hnew, hobject⟩ (isSame_self (hnone rfl))
    · rw [namedFields_newObject]
      exact objectText_spec (nodup_pick hown (nodup_entriesOf hentries))
        (writes_provenanceMember hone
          (hused _ (List.mem_cons_of_mem _ List.mem_cons_self)) hentries hown) hok
  · exact ⟨rfl, hok⟩

end Texts

/-! ## The hashes of a write -/

section Hashes

variable {H : Type} {nums : NumberText} {sha256Hex : List Char → H} {texts : Texts}
  {used : List JsValue} {records : List Record}

/-- **One hash of a write is that of its record.** -/
theorem hashRecord_spec {record : Record} (hone : MemoTable.KeyedOnce JsValue.ref used)
    (hused : ∀ v ∈ sharedParts record, v ∈ used) (hok : Kept nums used texts) :
    (hashRecord nums sha256Hex record texts).1 = contentHash nums sha256Hex record ∧
      Kept nums used (hashRecord nums sha256Hex record texts).2 := by
  unfold hashRecord contentHash
  cases hcontent : contentOf nums record with
  | error e => exact ⟨rfl, hok⟩
  | ok content =>
    have hof := contentOf_spec hcontent
    obtain ⟨htext, hok⟩ := objectText_spec hof.nodup (writes_recordMember hone hused hof) hok
    dsimp only [Except.bind]
    rw [jcs, ← htext]
    rcases hmade : objectText (recordMember nums (fieldNamed record "provenance")) content texts
      with ⟨made, last⟩
    rw [hmade] at hok
    cases made with
    | error e =>
      cases e
      exact ⟨rfl, hok⟩
    | ok text => exact ⟨rfl, hok⟩

/-- The hashes of records, whatever of their shared parts was made before. -/
theorem hashRecords_eq (hone : MemoTable.KeyedOnce JsValue.ref used)
    (hused : ∀ record ∈ records, ∀ v ∈ sharedParts record, v ∈ used)
    (hok : Kept nums used texts) :
    hashRecords nums sha256Hex records texts = records.map (contentHash nums sha256Hex) := by
  induction records generalizing texts with
  | nil => rfl
  | cons record records ih =>
    obtain ⟨hhash, hok⟩ := @hashRecord_spec H nums sha256Hex texts used record hone
      (hused record List.mem_cons_self) hok
    rw [hashRecords, List.map_cons, hhash,
      ih (fun r hr => hused r (List.mem_cons_of_mem _ hr)) hok]

/-- **The hashes of a write are those of its records**, and one is thrown exactly as the record's
own is, whatever the records share. -/
theorem contentHasher_eq (h : Unmodified records) :
    contentHasher nums sha256Hex records = records.map (contentHash nums sha256Hex) :=
  hashRecords_eq h (fun _ hr _ hv => List.mem_flatMap.mpr ⟨_, hr, hv⟩) MemoTable.Faithful.empty

end Hashes

/-! ## A write -/

/-- Fields by their names. -/
def fieldsOf (fields : List (String × JsValue)) : Record :=
  fields.map fun f => (Utf16.unitsOf f.1, f.2)

/-- A text. -/
def text (s : String) : JsValue := .str (Utf16.unitsOf s)

/-- What the readings of a write share, by identity: a location, an attribution with a name that was
cut in its last pair, and the location of the last reading alone. -/
def samplePart : ℕ → JsValue
  | 1 => .obj (some 1) (fieldsOf [("extent", text "point")])
  | 2 =>
    .obj (some 2) (fieldsOf [("provider", .str [0x41, 0xD83D]), ("license", text "CC0-1.0")])
  | n => .obj (some n) (fieldsOf [("elevation", .nan)])

/-- A reading. -/
def sampleReading (ref : ℕ) (location result : JsValue) : Record :=
  fieldsOf [("class", text "observation"), ("location", location), ("result", result),
    ("provenance", .obj (some ref) (fieldsOf [("recordId", text "R-1"),
      ("attribution", samplePart 2), ("rawRef", text "raw")]))]

/-- Three readings of a write. -/
def sampleWrite : List Record :=
  [sampleReading 3 (samplePart 1) (.num 1), sampleReading 4 (samplePart 1) (.num 2),
    sampleReading 5 (samplePart 6) (.num 3)]

/-- The hashes of the write. -/
theorem contentHasher_eq_sample :
    contentHasher Json.plainNumbers id sampleWrite =
      sampleWrite.map (contentHash Json.plainNumbers id) := by
  refine contentHasher_eq ?_
  have hparts : sampleWrite.flatMap sharedParts =
      [samplePart 1, samplePart 2, samplePart 1, samplePart 2, samplePart 6, samplePart 2] := rfl
  have hpart : ∀ v ∈ sampleWrite.flatMap sharedParts, ∀ k, v.ref = some k → v = samplePart k := by
    intro v hv k hk
    rw [hparts] at hv
    simp only [List.mem_cons, List.not_mem_nil, or_false] at hv
    rcases hv with rfl | rfl | rfl | rfl | rfl | rfl <;>
      · obtain rfl := Option.some.inj hk
        rfl
  intro v hv w hw k hkv hkw
  rw [hpart v hv k hkv, hpart w hw k hkw]

/-- The last one is thrown. -/
example : (contentHasher Json.plainNumbers id sampleWrite).getLast? =
    some (.error .notFinite) := by
  decide +kernel

end OpenConditions.Core.ContentHashing

import OpenConditions.Lib.JsonValue
import OpenConditions.Lib.Sorting
import OpenConditions.Lib.Utf16

set_option relaxedAutoImplicit false
set_option autoImplicit false

/-!
# The canonical text of a JSON value

One text for what a value says: no blanks, the members of an object in the order of their names' code
units, the strings with the shortest escapes.  The text of a number is left open up to what makes it
readable again.

## Main definitions

* `Json.NumberText` — a way to write numbers.
* `Json.escape`, `Json.quoted` — strings as literals.
* `Json.canonicalText` — the canonical text of a value.
* `Json.Writes` — a way to write values.
* `Json.plainNumbers` — a way to write numbers in which integers stand as they are.

## Main results

* `Json.Writes.append_inj` — a text tells where the first value in it ends and what it says.
* `Json.canonicalText_eq_iff` — two values have one canonical text exactly when they say the same.
-/

namespace Json

/-! ## Induction over values -/

/-- A property of values holds if it passes from the items of an array and the members of an object to
the whole. -/
theorem induct {P : Json → Prop} (null : P .null) (bool : ∀ b, P (.bool b)) (num : ∀ q, P (.num q))
    (str : ∀ s, P (.str s)) (arr : ∀ items, (∀ v ∈ items, P v) → P (.arr items))
    (obj : ∀ fields, (∀ f ∈ fields, P f.2) → P (.obj fields)) : ∀ v, P v
  | .null => null
  | .bool b => bool b
  | .num q => num q
  | .str s => str s
  | .arr items => arr items fun v _ => induct null bool num str arr obj v
  | .obj fields => obj fields fun f _ => induct null bool num str arr obj f.2
termination_by v => sizeOf v
decreasing_by
  · have := List.sizeOf_lt_of_mem ‹v ∈ items›
    simp only [Json.arr.sizeOf_spec]
    omega
  · have hlt := List.sizeOf_lt_of_mem ‹f ∈ fields›
    have hsnd : sizeOf f.2 < sizeOf f := by
      obtain ⟨name, v⟩ := f
      simp only [Prod.mk.sizeOf_spec]
      omega
    simp only [Json.obj.sizeOf_spec]
    omega

/-! ## The text -/

/-- A character that stands in numbers. -/
def isNumeral (c : Char) : Bool := c.isDigit || ['-', '+', '.', 'e'].contains c

/-- A way to write numbers: each number has its own text, of the characters of numbers. -/
structure NumberText where
  text : ℚ → List Char
  injective : Function.Injective text
  ne_nil : ∀ q, text q ≠ []
  numeral : ∀ q, ∀ c ∈ text q, isNumeral c = true

/-- The characters that a literal escapes: the quote, the backslash and the controls. -/
def escaped : List ℕ := 0x22 :: 0x5c :: List.range 0x20

/-- An escape, after its backslash. -/
def escapeTail : ℕ → List Char
  | 0x22 => ['\"']
  | 0x5c => ['\\']
  | 8 => ['b']
  | 9 => ['t']
  | 10 => ['n']
  | 12 => ['f']
  | 13 => ['r']
  | n => ['u', '0', '0', Nat.digitChar (n / 16), Nat.digitChar (n % 16)]

/-- A character inside a literal. -/
def escape (c : Char) : List Char :=
  if c.toNat ∈ escaped then '\\' :: escapeTail c.toNat else [c]

/-- A string as a literal. -/
def quoted (s : String) : List Char := '\"' :: (s.toList.flatMap escape ++ ['\"'])

/-- The texts after the first one, and the end. -/
def following (close : Char) : List (List Char) → List Char
  | [] => [close]
  | t :: ts => ',' :: (t ++ following close ts)

/-- Texts with commas between them, and the end. -/
def separated (close : Char) : List (List Char) → List Char
  | [] => [close]
  | t :: ts => t ++ following close ts

/-- A member of an object: its name and its value. -/
def memberText (member : String × List Char) : List Char :=
  quoted member.1 ++ ':' :: member.2

/-- Members in the order of the code units of their names. -/
def nameLe {V : Type*} (a b : String × V) : Bool :=
  decide (Utf16.codeUnits a.1 ≤ Utf16.codeUnits b.1)

mutual

/-- The characters of the canonical text of a value. -/
def charsOf (nums : NumberText) : Json → List Char
  | .null => ['n', 'u', 'l', 'l']
  | .bool true => ['t', 'r', 'u', 'e']
  | .bool false => ['f', 'a', 'l', 's', 'e']
  | .num q => nums.text q
  | .str s => quoted s
  | .arr items => '[' :: separated ']' (textsOf nums items)
  | .obj fields =>
    '{' :: separated '}' ((Sorting.sortBy nameLe (memberTexts nums fields)).map memberText)

/-- The texts of the items of an array. -/
def textsOf (nums : NumberText) : List Json → List (List Char)
  | [] => []
  | v :: items => charsOf nums v :: textsOf nums items

/-- The names of the members of an object with the texts of their values. -/
def memberTexts (nums : NumberText) : List (String × Json) → List (String × List Char)
  | [] => []
  | (name, v) :: fields =>
    (name, charsOf nums v) :: (memberTexts nums fields).filter fun member => member.1 ≠ name

end

/-- The canonical text of a value. -/
def canonicalText (nums : NumberText) (v : Json) : String := String.ofList (charsOf nums v)

/-! ## Reading a literal -/

variable {r s : List Char}

/-- No escape begins another. -/
theorem escapeTail_injOn :
    ∀ m ∈ escaped, ∀ n ∈ escaped, escapeTail m <+: escapeTail n → m = n := by
  decide +kernel

/-- Of two texts that begin alike, one of the beginnings begins the other. -/
theorem prefix_of_append_eq {u v : List Char} (h : u ++ r = v ++ s) : u <+: v ∨ v <+: u :=
  List.prefix_or_prefix_of_prefix ⟨r, h⟩ (List.prefix_append v s)

/-- The escape of a character is its own. -/
theorem escape_append_inj {c d : Char} (h : escape c ++ r = escape d ++ s) : c = d ∧ r = s := by
  have hcd : c.toNat = d.toNat → c = d := fun h => Char.ext (UInt32.toNat_inj.mp h)
  have hslash : '\\'.toNat ∈ escaped := by decide
  unfold escape at h
  split_ifs at h with hc hd hd
  · simp only [List.cons_append, List.cons.injEq, true_and] at h
    have hsame : c = d := by
      rcases prefix_of_append_eq h with hpre | hpre
      · exact hcd (escapeTail_injOn _ hc _ hd hpre)
      · exact (hcd (escapeTail_injOn _ hd _ hc hpre).symm)
    subst hsame
    exact ⟨rfl, List.append_cancel_left h⟩
  · simp only [List.cons_append, List.cons.injEq, List.nil_append] at h
    exact absurd (h.1 ▸ hslash) hd
  · simp only [List.cons_append, List.cons.injEq, List.nil_append] at h
    exact absurd (h.1 ▸ hslash) hc
  · simpa using h

/-- No escape begins with the quote. -/
theorem escape_cons (c : Char) : ∃ d t, escape c = d :: t ∧ d ≠ '\"' := by
  unfold escape
  split_ifs with hc
  · exact ⟨_, _, rfl, by decide⟩
  · refine ⟨c, [], rfl, ?_⟩
    rintro rfl
    exact hc (by decide)

/-- The first quote ends a literal. -/
theorem flatMap_escape_append_inj : ∀ {cs ds : List Char},
    cs.flatMap escape ++ '\"' :: r = ds.flatMap escape ++ '\"' :: s → cs = ds ∧ r = s
  | [], [], h => ⟨rfl, by simpa using h⟩
  | [], d :: ds, h => by
    obtain ⟨e, t, he, hne⟩ := escape_cons d
    simp only [List.flatMap_nil, List.nil_append, List.flatMap_cons, he, List.cons_append,
      List.cons.injEq] at h
    exact absurd h.1.symm hne
  | c :: cs, [], h => by
    obtain ⟨e, t, he, hne⟩ := escape_cons c
    simp only [List.flatMap_nil, List.nil_append, List.flatMap_cons, he, List.cons_append,
      List.cons.injEq] at h
    exact absurd h.1 hne
  | c :: cs, d :: ds, h => by
    simp only [List.flatMap_cons, List.append_assoc] at h
    obtain ⟨hcd, htail⟩ := escape_append_inj h
    obtain ⟨hcs, hrs⟩ := flatMap_escape_append_inj htail
    exact ⟨by rw [hcd, hcs], hrs⟩

/-- A literal tells its string and where it ends. -/
theorem quoted_append_inj {a b : String} (h : quoted a ++ r = quoted b ++ s) : a = b ∧ r = s := by
  simp only [quoted, List.cons_append, List.append_assoc, List.nil_append, List.cons.injEq,
    true_and] at h
  obtain ⟨hchars, hrs⟩ := flatMap_escape_append_inj h
  exact ⟨String.toList_injective hchars, hrs⟩

/-! ## Reading a list -/

/-- A text in which a number before it has ended. -/
def Ends (r : List Char) : Prop := ∀ c ∈ r.head?, isNumeral c = false

/-- A number ends where its characters do. -/
theorem numerals_append_inj {u v : List Char} (hu : ∀ c ∈ u, isNumeral c = true)
    (hv : ∀ c ∈ v, isNumeral c = true) (hr : Ends r) (hs : Ends s) (h : u ++ r = v ++ s) :
    u = v ∧ r = s := by
  have htake : ∀ {w t : List Char}, (∀ c ∈ w, isNumeral c = true) → Ends t →
      (w ++ t).takeWhile isNumeral = w := by
    intro w t hw ht
    rw [List.takeWhile_append_of_pos hw]
    cases t with
    | nil => simp
    | cons c t => simp [ht c (by simp)]
  have huv : u = v := by rw [← htake hu hr, h, htake hv hs]
  subst huv
  exact ⟨rfl, List.append_cancel_left h⟩

section Lists

variable {X Y : Type*} {f : X → List Char} {g : X → Y} {close : Char}

/-- The texts after a first one tell what each says and where they end. -/
theorem following_append_inj (hcomma : close ≠ ',') (hclose : isNumeral close = false) :
    ∀ {xs ys : List X}, (∀ x ∈ xs, ∀ y r s, Ends r → Ends s → f x ++ r = f y ++ s →
      g x = g y ∧ r = s) →
    following close (xs.map f) ++ r = following close (ys.map f) ++ s →
      xs.map g = ys.map g ∧ r = s
  | [], [], _, h => by simpa [following] using h
  | [], y :: ys, _, h => by
    simp only [List.map_nil, List.map_cons, following, List.cons_append, List.cons.injEq] at h
    exact absurd h.1 hcomma
  | x :: xs, [], _, h => by
    simp only [List.map_nil, List.map_cons, following, List.cons_append, List.cons.injEq] at h
    exact absurd h.1.symm hcomma
  | x :: xs, y :: ys, hread, h => by
    have hends : ∀ (zs : List X) t, Ends (following close (zs.map f) ++ t) := by
      intro zs t c hc
      cases zs with
      | nil =>
        obtain rfl : close = c := by simpa [following] using hc
        exact hclose
      | cons z zs =>
        obtain rfl : ',' = c := by simpa [following] using hc
        decide
    simp only [List.map_cons, following, List.cons_append, List.append_assoc, List.cons.injEq,
      true_and] at h
    obtain ⟨hxy, hrest⟩ := hread x List.mem_cons_self y _ _ (hends xs r) (hends ys s) h
    obtain ⟨hmap, hrs⟩ := following_append_inj hcomma hclose
      (fun z hz => hread z (List.mem_cons_of_mem _ hz)) hrest
    exact ⟨by rw [List.map_cons, List.map_cons, hxy, hmap], hrs⟩

/-- Texts with commas between them tell what each says and where they end. -/
theorem separated_append_inj (hcomma : close ≠ ',') (hclose : isNumeral close = false)
    (hstart : ∀ x, ∃ c t, f x = c :: t ∧ c ≠ close) :
    ∀ {xs ys : List X}, (∀ x ∈ xs, ∀ y r s, Ends r → Ends s → f x ++ r = f y ++ s →
      g x = g y ∧ r = s) →
    separated close (xs.map f) ++ r = separated close (ys.map f) ++ s →
      xs.map g = ys.map g ∧ r = s
  | [], [], _, h => by simpa [separated] using h
  | [], y :: ys, _, h => by
    obtain ⟨c, t, hc, hne⟩ := hstart y
    simp only [List.map_nil, List.map_cons, separated, hc, List.cons_append, List.cons.injEq] at h
    exact absurd h.1.symm hne
  | x :: xs, [], _, h => by
    obtain ⟨c, t, hc, hne⟩ := hstart x
    simp only [List.map_nil, List.map_cons, separated, hc, List.cons_append, List.cons.injEq] at h
    exact absurd h.1 hne
  | x :: xs, y :: ys, hread, h => by
    -- The first text is read as one after a comma.
    have hcons : following close ((x :: xs).map f) ++ r = following close ((y :: ys).map f) ++ s := by
      simpa [separated, following] using h
    exact following_append_inj hcomma hclose hread hcons

end Lists

/-! ## The members of an object -/

/-- The members of an object: of two fields with one name the first. -/
def membersOf : List (String × Json) → List (String × Json)
  | [] => []
  | (name, v) :: fields => (name, v) :: (membersOf fields).filter fun member => member.1 ≠ name

/-- A member is the field of its name. -/
theorem mem_membersOf {fields : List (String × Json)} {name : String} {v : Json} :
    (name, v) ∈ membersOf fields ↔ fieldOf name fields = some v := by
  induction fields with
  | nil => simp [membersOf, fieldOf]
  | cons field fields ih =>
    obtain ⟨name', v'⟩ := field
    rw [membersOf, fieldOf, List.mem_cons, List.mem_filter, ih]
    by_cases hname : name' = name
    · subst hname
      rw [if_pos rfl]
      constructor
      · rintro (h | ⟨-, h⟩)
        · rw [(Prod.mk.inj h).2]
        · exact absurd rfl (of_decide_eq_true h)
      · intro h
        exact Or.inl (by rw [Option.some.inj h])
    · rw [if_neg hname]
      constructor
      · rintro (h | ⟨h, -⟩)
        · exact absurd (Prod.mk.inj h).1.symm hname
        · exact h
      · exact fun h => Or.inr ⟨h, decide_eq_true fun heq => hname heq.symm⟩

/-- The names of the members are distinct. -/
theorem membersOf_pairwise (fields : List (String × Json)) :
    (membersOf fields).Pairwise fun a b => a.1 ≠ b.1 := by
  induction fields with
  | nil => exact List.Pairwise.nil
  | cons field fields ih =>
    obtain ⟨name, v⟩ := field
    rw [membersOf, List.pairwise_cons]
    refine ⟨fun member hmember => ?_, ih.filter _⟩
    exact fun heq => of_decide_eq_true (List.mem_filter.mp hmember).2 heq.symm

/-- The order of the names is a total preorder. -/
theorem orders_nameLe {V : Type*} : Sorting.OrdersBy (nameLe (V := V)) where
  total a b := by
    rcases le_total (Utf16.codeUnits a.1) (Utf16.codeUnits b.1) with h | h
    · exact Or.inl (decide_eq_true h)
    · exact Or.inr (decide_eq_true h)
  trans a b c hab hbc := decide_eq_true ((of_decide_eq_true hab).trans (of_decide_eq_true hbc))

variable {nums : NumberText}

/-- The texts of the items of an array. -/
theorem textsOf_eq (items : List Json) : textsOf nums items = items.map (charsOf nums) := by
  induction items with
  | nil => rfl
  | cons v items ih => rw [textsOf, ih, List.map_cons]

/-- The texts of the members of an object. -/
theorem memberTexts_eq (fields : List (String × Json)) :
    memberTexts nums fields = (membersOf fields).map fun m => (m.1, charsOf nums m.2) := by
  induction fields with
  | nil => rfl
  | cons field fields ih =>
    obtain ⟨name, v⟩ := field
    rw [memberTexts, membersOf, ih, List.map_cons, List.filter_map]
    rfl

/-- The members of an object in the order of their names. -/
def sortedMembers (fields : List (String × Json)) : List (String × Json) :=
  Sorting.sortBy nameLe (membersOf fields)

/-- The text of an object, by its members in order. -/
theorem charsOf_obj (fields : List (String × Json)) :
    charsOf nums (.obj fields) = '\x7b' :: separated '\x7d' ((sortedMembers fields).map fun m =>
      memberText (m.1, charsOf nums m.2)) := by
  have hsort : (sortedMembers fields).map (fun m => (m.1, charsOf nums m.2)) =
      Sorting.sortBy nameLe ((membersOf fields).map fun m => (m.1, charsOf nums m.2)) :=
    List.map_insertionSort _ _ _ _ fun a _ b _ => Iff.rfl
  rw [charsOf, memberTexts_eq, ← hsort, List.map_map]
  rfl

/-- A member in order is the field of its name. -/
theorem mem_sortedMembers {fields : List (String × Json)} {name : String} {v : Json} :
    (name, v) ∈ sortedMembers fields ↔ fieldOf name fields = some v :=
  Sorting.mem_sortBy.trans mem_membersOf

/-- What the members of an object say, in order. -/
def saidMembers (fields : List (String × Json)) : List (String × JsonValue) :=
  (sortedMembers fields).map fun m => (m.1, m.2.value)

/-- What a member says is what the field of its name says. -/
theorem mem_saidMembers {fields : List (String × Json)} {name : String} {w : JsonValue} :
    (name, w) ∈ saidMembers fields ↔ (fieldOf name fields).map Json.value = some w := by
  rw [saidMembers, List.mem_map, Option.map_eq_some_iff]
  constructor
  · rintro ⟨⟨name', v⟩, hmem, heq⟩
    obtain ⟨rfl, rfl⟩ := Prod.mk.inj heq
    exact ⟨v, Iff.mp mem_sortedMembers hmem, rfl⟩
  · rintro ⟨v, hv, rfl⟩
    exact ⟨(name, v), Iff.mpr mem_sortedMembers hv, rfl⟩

/-- The members stand in the order of their names. -/
theorem saidMembers_pairwise (fields : List (String × Json)) :
    (saidMembers fields).Pairwise fun a b => nameLe a b = true :=
  List.pairwise_map.mpr (Sorting.sortBy_pairwise orders_nameLe (membersOf fields))

/-- No member stands twice. -/
theorem saidMembers_nodup (fields : List (String × Json)) : (saidMembers fields).Nodup := by
  have hnames : (sortedMembers fields).Pairwise fun a b => a.1 ≠ b.1 :=
    (Sorting.sortBy_perm nameLe (membersOf fields)).symm.pairwise (membersOf_pairwise fields)
      fun h => h.symm
  refine List.pairwise_map.mpr (hnames.imp fun hne heq => ?_)
  exact hne (Prod.mk.inj heq).1

/-- **Objects have the same fields exactly when their members say the same in order.** -/
theorem saidMembers_eq_iff {fields fields' : List (String × Json)} :
    saidMembers fields = saidMembers fields' ↔
      ∀ key, (fieldOf key fields).map Json.value = (fieldOf key fields').map Json.value := by
  constructor
  · intro h key
    exact Option.ext fun w => by rw [← mem_saidMembers, ← mem_saidMembers, h]
  · intro h
    have hperm : (saidMembers fields).Perm (saidMembers fields') := by
      refine (List.perm_ext_iff_of_nodup (saidMembers_nodup _) (saidMembers_nodup _)).mpr ?_
      rintro ⟨name, w⟩
      rw [mem_saidMembers, mem_saidMembers, h]
    have hsep : Sorting.Separates nameLe (saidMembers fields) := by
      rintro ⟨name, w⟩ hmem ⟨name', w'⟩ hmem' hle hle'
      obtain rfl : name = name' := Utf16.codeUnits_injective
        (le_antisymm (of_decide_eq_true hle) (of_decide_eq_true hle'))
      rw [Option.some.inj ((Iff.mp mem_saidMembers hmem).symm.trans (Iff.mp mem_saidMembers hmem'))]
    exact Sorting.eq_of_perm_of_pairwise hsep hperm (saidMembers_pairwise _)
      (saidMembers_pairwise _)

/-! ## Reading a value -/

/-- What the first character of a text tells of its value. -/
def kindOf : Json → ℕ
  | .null => 0
  | .bool _ => 1
  | .num _ => 2
  | .str _ => 3
  | .arr _ => 4
  | .obj _ => 5

/-- The kind of value that a character begins. -/
def begins (c : Char) : ℕ :=
  if c = 'n' then 0 else if c = 't' ∨ c = 'f' then 1 else if isNumeral c then 2
  else if c = '\"' then 3 else if c = '[' then 4
  else if c = '\x7b' then 5 else 6

/-- What some members of an object say. -/
def said (members : List (String × Json)) : List (String × JsonValue) :=
  members.map fun m => (m.1, m.2.value)

/-- A way to write values without blanks, which of an object writes some members. -/
structure Writes (nums : NumberText) (members : List (String × Json) → List (String × Json))
    (text : Json → List Char) : Prop where
  null : text .null = ['n', 'u', 'l', 'l']
  bool : ∀ b, text (.bool b) = if b then ['t', 'r', 'u', 'e'] else ['f', 'a', 'l', 's', 'e']
  num : ∀ q, text (.num q) = nums.text q
  str : ∀ s, text (.str s) = quoted s
  arr : ∀ items, text (.arr items) = '[' :: separated ']' (items.map text)
  obj : ∀ fields, text (.obj fields) =
    '\x7b' :: separated '\x7d' ((members fields).map fun m => memberText (m.1, text m.2))
  mem : ∀ fields, ∀ m ∈ members fields, m ∈ fields
  /-- The members tell what the object says. -/
  told : ∀ fields fields', said (members fields) = said (members fields') →
    (Json.obj fields).value = (Json.obj fields').value

section Writes

variable {members : List (String × Json) → List (String × Json)} {text : Json → List Char}

/-- A text begins as its value does. -/
theorem Writes.cons (h : Writes nums members text) (v : Json) :
    ∃ c t, text v = c :: t ∧ begins c = kindOf v := by
  cases v with
  | null => exact ⟨_, _, h.null, by decide⟩
  | bool b => cases b <;> exact ⟨_, _, h.bool _, by decide⟩
  | num q =>
    obtain ⟨c, t, hct⟩ := List.exists_cons_of_ne_nil (nums.ne_nil q)
    have hc : isNumeral c = true := nums.numeral q c (hct ▸ List.mem_cons_self)
    refine ⟨c, t, (h.num q).trans hct, ?_⟩
    have hletter : ∀ d : Char, isNumeral d = false → c ≠ d := by
      rintro d hd rfl
      rw [hc] at hd
      cases hd
    rw [begins, if_neg (hletter 'n' (by decide)),
      if_neg (not_or.mpr ⟨hletter 't' (by decide), hletter 'f' (by decide)⟩), if_pos hc, kindOf]
  | str s => exact ⟨_, _, h.str s, rfl⟩
  | arr items => exact ⟨_, _, h.arr items, rfl⟩
  | obj fields => exact ⟨_, _, h.obj fields, rfl⟩

/-- Texts that begin alike are of one kind of value. -/
theorem Writes.kindOf_eq (h : Writes nums members text) {a b : Json}
    (hab : text a ++ r = text b ++ s) : kindOf a = kindOf b := by
  obtain ⟨c, t, hc, hkind⟩ := h.cons a
  obtain ⟨d, u, hd, hkind'⟩ := h.cons b
  rw [hc, hd, List.cons_append, List.cons_append, List.cons.injEq] at hab
  rw [← hkind, ← hkind', hab.1]

/-- **A text tells where the first value in it ends and what it says.** -/
theorem Writes.append_inj (h : Writes nums members text) (a : Json) : ∀ b r s, Ends r → Ends s →
    text a ++ r = text b ++ s → a.value = b.value ∧ r = s := by
  induction a using Json.induct with
  | null =>
    intro b r s _ _ hab
    have hkind := h.kindOf_eq hab
    cases b <;> simp only [kindOf] at hkind <;> try cases hkind
    exact ⟨rfl, List.append_cancel_left hab⟩
  | bool x =>
    intro b r s _ _ hab
    have hkind := h.kindOf_eq hab
    cases b <;> simp only [kindOf] at hkind <;> try cases hkind
    rename_i y
    rw [h.bool, h.bool] at hab
    cases x <;> cases y
    · exact ⟨rfl, List.append_cancel_left hab⟩
    · exact absurd (List.cons.inj hab).1 (by decide)
    · exact absurd (List.cons.inj hab).1 (by decide)
    · exact ⟨rfl, List.append_cancel_left hab⟩
  | num p =>
    intro b r s hr hs hab
    have hkind := h.kindOf_eq hab
    cases b <;> simp only [kindOf] at hkind <;> try cases hkind
    rename_i q
    rw [h.num, h.num] at hab
    obtain ⟨htext, hrs⟩ := numerals_append_inj (nums.numeral p) (nums.numeral q) hr hs hab
    rw [nums.injective htext]
    exact ⟨rfl, hrs⟩
  | str x =>
    intro b r s _ _ hab
    have hkind := h.kindOf_eq hab
    cases b <;> simp only [kindOf] at hkind <;> try cases hkind
    rw [h.str, h.str] at hab
    obtain ⟨rfl, hrs⟩ := quoted_append_inj hab
    exact ⟨rfl, hrs⟩
  | arr items ih =>
    intro b r s _ _ hab
    have hkind := h.kindOf_eq hab
    cases b <;> simp only [kindOf] at hkind <;> try cases hkind
    rename_i items'
    simp only [h.arr, List.cons_append, List.cons.injEq, true_and] at hab
    have hstart : ∀ v, ∃ c t, text v = c :: t ∧ c ≠ ']' := by
      intro v
      obtain ⟨c, t, hct, hbegins⟩ := h.cons v
      refine ⟨c, t, hct, ?_⟩
      rintro rfl
      cases v <;> cases hbegins
    obtain ⟨hmap, hrs⟩ := @separated_append_inj r s Json JsonValue text Json.value ']'
      (by decide) (by decide) hstart items items' ih hab
    exact ⟨by rw [Json.value, Json.value, Json.values_eq, Json.values_eq, hmap], hrs⟩
  | obj fields ih =>
    intro b r s _ _ hab
    have hkind := h.kindOf_eq hab
    cases b <;> simp only [kindOf] at hkind <;> try cases hkind
    rename_i fields'
    rw [h.obj, h.obj, List.cons_append, List.cons_append, List.cons.injEq] at hab
    have hread : ∀ x ∈ members fields, ∀ (y : String × Json) r s, Ends r → Ends s →
        memberText (x.1, text x.2) ++ r = memberText (y.1, text y.2) ++ s →
        (x.1, x.2.value) = (y.1, y.2.value) ∧ r = s := by
      rintro ⟨name, v⟩ hx ⟨name', v'⟩ r s hr hs hxy
      simp only [memberText, List.append_assoc, List.cons_append] at hxy
      obtain ⟨rfl, hrest⟩ := quoted_append_inj hxy
      obtain ⟨hvalue, hrs⟩ := ih (name, v) (h.mem fields _ hx) v' r s hr hs
        (List.cons.inj hrest).2
      exact ⟨by rw [hvalue], hrs⟩
    obtain ⟨hmap, hrs⟩ := separated_append_inj (by decide) (by decide)
      (fun m => ⟨_, _, rfl, by decide⟩) hread hab.2
    exact ⟨h.told fields fields' hmap, hrs⟩

/-- Values with one text say the same. -/
theorem Writes.value_eq (h : Writes nums members text) {a b : Json} (hab : text a = text b) :
    a.value = b.value :=
  (h.append_inj a b [] [] (by simp [Ends]) (by simp [Ends]) (by rw [hab])).1

end Writes

/-- The canonical text writes the members in the order of their names. -/
theorem writes_charsOf : Writes nums sortedMembers (charsOf nums) where
  null := rfl
  bool b := by cases b <;> rfl
  num _ := rfl
  str _ := rfl
  arr items := by rw [charsOf, textsOf_eq]
  obj := charsOf_obj
  mem _ _ hm := Fields.mem_of_get (Iff.mp mem_sortedMembers hm)
  told _ _ h := Fields.value_ext (Iff.mp saidMembers_eq_iff h)

/-! ## Canonical texts -/

/-- Lists of what says the same are written alike, if each item is. -/
theorem map_eq_of_map_eq {X Y Z : Type*} {f : X → Z} {g : X → Y} : ∀ {xs ys : List X},
    (∀ x ∈ xs, ∀ y ∈ ys, g x = g y → f x = f y) → xs.map g = ys.map g → xs.map f = ys.map f
  | [], [], _, _ => rfl
  | [], y :: ys, _, h => by cases h
  | x :: xs, [], _, h => by cases h
  | x :: xs, y :: ys, hfg, h => by
    obtain ⟨hxy, hrest⟩ := List.cons.inj h
    rw [List.map_cons, List.map_cons, hfg x List.mem_cons_self y List.mem_cons_self hxy,
      map_eq_of_map_eq (fun z hz w hw => hfg z (List.mem_cons_of_mem _ hz) w
        (List.mem_cons_of_mem _ hw)) hrest]

/-- Values that say the same have one text. -/
theorem charsOf_congr (a : Json) : ∀ b, a.value = b.value → charsOf nums a = charsOf nums b := by
  induction a using Json.induct with
  | null | bool x | num p =>
    intro b h
    cases b <;> simp_all [Json.value]
  | str x =>
    intro b h
    rw [eq_str h.symm]
  | arr items ih =>
    intro b h
    obtain ⟨items', rfl, hmap⟩ := eq_arr h.symm
    rw [charsOf, charsOf, textsOf_eq, textsOf_eq,
      map_eq_of_map_eq (fun x hx y _ => ih x hx y) hmap.symm]
  | obj fields ih =>
    intro b h
    obtain ⟨fields', rfl, hvalue⟩ := eq_obj h.symm
    have hsaid : saidMembers fields = saidMembers fields' :=
      Iff.mpr saidMembers_eq_iff (Fields.get_of_value hvalue.symm)
    rw [charsOf_obj, charsOf_obj]
    refine congrArg (fun texts => '\x7b' :: separated '\x7d' texts) (map_eq_of_map_eq ?_ hsaid)
    rintro ⟨name, v⟩ hmem ⟨name', v'⟩ _ heq
    obtain ⟨rfl, hv⟩ := Prod.mk.inj heq
    rw [ih (name, v) (Fields.mem_of_get (Iff.mp mem_sortedMembers hmem)) v' hv]

/-- **Two values have one canonical text exactly when they say the same.** -/
theorem canonicalText_eq_iff {a b : Json} :
    canonicalText nums a = canonicalText nums b ↔ a.value = b.value := by
  constructor
  · intro h
    have hwrites : Writes nums sortedMembers (charsOf nums) := writes_charsOf
    refine hwrites.value_eq ?_
    rw [← String.toList_ofList (l := charsOf nums a), ← String.toList_ofList (l := charsOf nums b)]
    exact congrArg String.toList h
  · intro h
    exact congrArg String.ofList (charsOf_congr a b h)

/-! ## A way to write numbers -/

/-- The text of an integer. -/
def integerChars (z : ℤ) : List Char :=
  if z < 0 then '-' :: Nat.toDigits 10 z.natAbs else Nat.toDigits 10 z.natAbs

/-- A natural number is the one of its digits. -/
theorem toDigits_injective : Function.Injective (Nat.toDigits 10) := by
  intro m n h
  rw [← Nat.ofDigitChars_ten_toDigits (n := m), h, Nat.ofDigitChars_ten_toDigits]

/-- The characters of an integer are digits after a sign. -/
theorem mem_integerChars {z : ℤ} {c : Char} (hc : c ∈ integerChars z) :
    c = '-' ∨ c.isDigit = true := by
  have hdigit : c ∈ Nat.toDigits 10 z.natAbs → c.isDigit = true :=
    Nat.isDigit_of_mem_toDigits (by decide) (by decide)
  unfold integerChars at hc
  split_ifs at hc
  · rcases List.mem_cons.mp hc with rfl | hc
    · exact Or.inl rfl
    · exact Or.inr (hdigit hc)
  · exact Or.inr (hdigit hc)

/-- An integer is the one of its text. -/
theorem integerChars_injective : Function.Injective integerChars := by
  intro y z h
  have hsign : ∀ n, '-' ∉ Nat.toDigits 10 n := fun n hmem =>
    absurd (Nat.isDigit_of_mem_toDigits (by decide) (by decide) hmem) (by decide)
  unfold integerChars at h
  split_ifs at h with hy hz hz
  · have := toDigits_injective (List.cons.inj h).2
    omega
  · exact absurd (h ▸ List.mem_cons_self) (hsign z.natAbs)
  · exact absurd (h ▸ List.mem_cons_self) (hsign y.natAbs)
  · have := toDigits_injective h
    omega

/-- The text of a number: an integer as it is, another by its numerator and denominator. -/
def numberChars (q : ℚ) : List Char :=
  integerChars q.num ++ if q.den = 1 then [] else 'e' :: Nat.toDigits 10 q.den

/-- A number is the one of its text. -/
theorem numberChars_injective : Function.Injective numberChars := by
  intro p q h
  -- The numerator ends where the letter stands, or the text does.
  have hbefore : ∀ x : ℚ, (numberChars x).takeWhile (· != 'e') = integerChars x.num := by
    intro x
    have hnone : ∀ c ∈ integerChars x.num, (c != 'e') = true := by
      intro c hc
      rcases mem_integerChars hc with rfl | hdigit
      · decide
      · refine bne_iff_ne.mpr ?_
        rintro rfl
        exact absurd hdigit (by decide)
    rw [numberChars, List.takeWhile_append_of_pos hnone]
    split_ifs <;> simp
  have hnum : integerChars p.num = integerChars q.num := by rw [← hbefore p, h, hbefore q]
  have hden := h
  rw [numberChars, numberChars, hnum] at hden
  replace hden := List.append_cancel_left hden
  refine Rat.ext (integerChars_injective hnum) ?_
  split_ifs at hden with hp hq hq
  · rw [hp, hq]
  · exact toDigits_injective (List.cons.inj hden).2

/-- Integers written as they are, other numbers by their numerators and denominators. -/
def plainNumbers : NumberText where
  text := numberChars
  injective := numberChars_injective
  ne_nil q h := by
    have hdigits : integerChars q.num = [] := (List.append_eq_nil_iff.mp h).1
    unfold integerChars at hdigits
    split_ifs at hdigits
    exact Nat.toDigits_ne_nil hdigits
  numeral q c hc := by
    have hdigit : ∀ {d : Char}, d.isDigit = true → isNumeral d = true := fun hd => by
      rw [isNumeral, hd, Bool.true_or]
    rcases List.mem_append.mp hc with hc | hc
    · rcases mem_integerChars hc with rfl | hd
      · decide
      · exact hdigit hd
    · split_ifs at hc
      · exact absurd hc List.not_mem_nil
      · rcases List.mem_cons.mp hc with rfl | hc
        · decide
        · exact hdigit (Nat.isDigit_of_mem_toDigits (by decide) (by decide) hc)

end Json

import OpenConditions.Lib.OrderedMap

set_option relaxedAutoImplicit false
set_option autoImplicit false

/-!
# Indexes of codes

Two indexes that a list of rows is entered into, one row after the other.  One refuses a key that is
entered with two different values; the other keeps the first value of each key.

## Main definitions

* `CodeIndex.add` — a value entered, unless another is held.
* `CodeIndex.addFirst` — a value entered, unless one is held.

## Main results

* `CodeIndex.get_iff` — an index without two values for a key holds what was entered.
* `CodeIndex.get_foldl_addFirst` — the first value of each key.
-/

namespace CodeIndex

variable {κ α β γ : Type*} [DecidableEq κ] [DecidableEq γ] {code : α → γ}

/-- A value entered under a key; refused when another is held, as the codes of the two tell. -/
def add (code : α → γ) (m : OrderedMap κ α) (row : κ × α) : Option (OrderedMap κ α) :=
  match m.get row.1 with
  | none => some (m.set row.1 row.2)
  | some held => if code held = code row.2 then some (m.set row.1 row.2) else none

/-- A value entered under a key, unless one is held. -/
def addFirst (m : OrderedMap κ β) (row : κ × β) : OrderedMap κ β :=
  if m.has row.1 then m else m.set row.1 row.2

/-- A value that is entered is held, in the place of one with the same code. -/
theorem add_eq_some {m m' : OrderedMap κ α} {row : κ × α} (h : add code m row = some m') :
    m' = m.set row.1 row.2 ∧ ∀ held, m.get row.1 = some held → code held = code row.2 := by
  unfold add at h
  cases hget : m.get row.1 with
  | none =>
    rw [hget] at h
    exact ⟨(Option.some.inj h).symm, fun held hheld => by cases hheld⟩
  | some held =>
    rw [hget] at h
    simp only at h
    split_ifs at h with hcode
    exact ⟨(Option.some.inj h).symm, fun held' h' => Option.some.inj h' ▸ hcode⟩

/-- What is held was entered. -/
theorem mem_of_get {rows : List (κ × α)} : ∀ {m m' : OrderedMap κ α},
    rows.foldlM (add code) m = some m' → ∀ {k v}, m'.get k = some v →
      m.get k = some v ∨ (k, v) ∈ rows := by
  induction rows with
  | nil =>
    intro m m' h k v hv
    obtain rfl := Option.some.inj h
    exact Or.inl hv
  | cons row rows ih =>
    intro m m' h k v hv
    rw [List.foldlM_cons] at h
    obtain ⟨m₁, hrow, hrest⟩ := Option.bind_eq_some_iff.mp h
    rcases ih hrest hv with hget | hmem
    · rw [(add_eq_some hrow).1, OrderedMap.get_set] at hget
      split_ifs at hget with hk
      · obtain rfl := Option.some.inj hget
        exact Or.inr (hk ▸ List.mem_cons_self ..)
      · exact Or.inl hget
    · exact Or.inr (List.mem_cons_of_mem _ hmem)

/-- What was held stays, up to its code. -/
theorem get_of_get {rows : List (κ × α)} : ∀ {m m' : OrderedMap κ α},
    rows.foldlM (add code) m = some m' → ∀ {k v}, m.get k = some v →
      ∃ v', m'.get k = some v' ∧ code v' = code v := by
  induction rows with
  | nil =>
    intro m m' h k v hv
    obtain rfl := Option.some.inj h
    exact ⟨v, hv, rfl⟩
  | cons row rows ih =>
    intro m m' h k v hv
    rw [List.foldlM_cons] at h
    obtain ⟨m₁, hrow, hrest⟩ := Option.bind_eq_some_iff.mp h
    obtain ⟨rfl, hsame⟩ := add_eq_some hrow
    by_cases hk : k = row.1
    · subst hk
      obtain ⟨v', hv', hcode⟩ := ih hrest (OrderedMap.get_set_self _ _ _)
      exact ⟨v', hv', hcode.trans (hsame v hv).symm⟩
    · exact ih hrest ((OrderedMap.get_set_of_ne _ _ hk).trans hv)

/-- **What was entered is held**, up to its code. -/
theorem get_of_mem {rows : List (κ × α)} : ∀ {m m' : OrderedMap κ α},
    rows.foldlM (add code) m = some m' → ∀ {k v}, (k, v) ∈ rows →
      ∃ v', m'.get k = some v' ∧ code v' = code v := by
  induction rows with
  | nil =>
    intro m m' _ k v hv
    cases hv
  | cons row rows ih =>
    intro m m' h k v hv
    rw [List.foldlM_cons] at h
    obtain ⟨m₁, hrow, hrest⟩ := Option.bind_eq_some_iff.mp h
    rcases List.mem_cons.mp hv with rfl | hv
    · exact get_of_get hrest (by rw [(add_eq_some hrow).1]; exact OrderedMap.get_set_self _ _ _)
    · exact ih hrest hv

/-- **What an index holds is what was entered**, if values are told by their codes. -/
theorem get_iff {rows : List (κ × α)} {m : OrderedMap κ α}
    (hinj : ∀ k v v', (k, v) ∈ rows → (k, v') ∈ rows → code v = code v' → v = v')
    (h : rows.foldlM (add code) .empty = some m) {k : κ} {v : α} :
    m.get k = some v ↔ (k, v) ∈ rows := by
  have hmem : ∀ {v}, m.get k = some v → (k, v) ∈ rows := by
    intro v hv
    rcases mem_of_get h hv with hempty | hmem
    · cases hempty
    · exact hmem
  refine ⟨hmem, fun hv => ?_⟩
  obtain ⟨v', hget, hcode⟩ := get_of_mem h hv
  rw [hget, hinj k v' v (hmem hget) hv hcode]

/-- **The first value of each key is kept.** -/
theorem get_foldl_addFirst (rows : List (κ × β)) (k : κ) : ∀ m : OrderedMap κ β,
    (rows.foldl addFirst m).get k =
      (m.get k).or ((rows.find? fun row => decide (row.1 = k)).map Prod.snd) := by
  induction rows with
  | nil => simp
  | cons row rows ih =>
    intro m
    rw [List.foldl_cons, ih, List.find?_cons]
    unfold addFirst
    by_cases hhas : m.has row.1
    · rw [if_pos hhas]
      by_cases hk : row.1 = k
      · subst hk
        obtain ⟨v, hv⟩ := Option.isSome_iff_exists.mp hhas
        rw [hv, Option.some_or, Option.some_or]
      · simp [hk]
    · rw [if_neg hhas]
      by_cases hk : row.1 = k
      · subst hk
        have hnone : m.get row.1 = none := by
          rwa [OrderedMap.has, Bool.not_eq_true, Option.isSome_eq_false_iff,
            Option.isNone_iff_eq_none] at hhas
        simp [hnone]
      · rw [OrderedMap.get_set_of_ne _ _ (Ne.symm hk)]
        simp [hk]

omit [DecidableEq κ] [DecidableEq γ] in
/-- The first result of two functions that agree on a list. -/
theorem findSome?_congr {l : List α} {f g : α → Option β} (h : ∀ x ∈ l, f x = g x) :
    l.findSome? f = l.findSome? g := by
  induction l with
  | nil => rfl
  | cons x l ih =>
    rw [List.findSome?_cons, List.findSome?_cons, h x (List.mem_cons_self ..),
      ih fun y hy => h y (List.mem_cons_of_mem _ hy)]

/-- A value that is kept was entered. -/
theorem mem_of_get_foldl_addFirst {rows : List (κ × β)} {k : κ} {v : β}
    (h : (rows.foldl addFirst .empty).get k = some v) : (k, v) ∈ rows := by
  rw [get_foldl_addFirst, OrderedMap.get_empty, Option.none_or] at h
  obtain ⟨row, hfind, rfl⟩ := Option.map_eq_some_iff.mp h
  have hk : row.1 = k := by simpa using List.find?_some hfind
  exact hk ▸ List.mem_of_find?_eq_some hfind

/-- A key that was entered has a value. -/
theorem get_foldl_addFirst_isSome {rows : List (κ × β)} {k : κ} {v : β} (h : (k, v) ∈ rows) :
    ∃ v', (rows.foldl addFirst .empty).get k = some v' := by
  rw [get_foldl_addFirst, OrderedMap.get_empty, Option.none_or]
  cases hfind : rows.find? (fun row => decide (row.1 = k)) with
  | none => simpa using List.find?_eq_none.mp hfind _ h
  | some row => exact ⟨row.2, rfl⟩

end CodeIndex

import Mathlib.Data.List.Basic
import Mathlib.Data.List.Nodup

set_option relaxedAutoImplicit false
set_option autoImplicit false

/-!
# Insertion-ordered maps

A map that keeps its keys in the order of their first insertion, as the maps of scripting
languages do: setting a key that is present replaces its value in place, setting a new key
appends it.  That no key stands twice is a field of the structure.

## Main definitions

* `OrderedMap` — the entries in insertion order, no key twice.
* `OrderedMap.get`, `set`, `delete`, `filter`, `mapValues`, `size` — the operations.

## Main results

* `OrderedMap.get_set`, `get_delete`, `get_filter` — what a lookup finds after each operation.
* `OrderedMap.get_foldl_set_of_mem`, `get_foldl_set_of_not_mem` — and after a run of sets.
* `OrderedMap.get_foldl_set_rows` — what rows that are set one after the other leave.
-/

/-- A finite map whose entries stand in the order of their first insertion. -/
structure OrderedMap (α β : Type*) where
  /-- The entries, oldest key first. -/
  entries : List (α × β)
  /-- No key stands twice. -/
  nodup : (entries.map Prod.fst).Nodup

namespace OrderedMap

variable {α β : Type*}

/-- The map without entries. -/
def empty : OrderedMap α β := ⟨[], List.nodup_nil⟩

/-- The number of entries. -/
def size (m : OrderedMap α β) : ℕ := m.entries.length

/-- The keys in insertion order. -/
def keys (m : OrderedMap α β) : List α := m.entries.map Prod.fst

/-- Keeps the entries that pass `p`, in order. -/
def filter (p : α × β → Bool) (m : OrderedMap α β) : OrderedMap α β :=
  ⟨m.entries.filter p, (List.filter_sublist.map Prod.fst).nodup m.nodup⟩

variable [DecidableEq α]

/-- The value of a key in a list of entries. -/
def getEntries (k : α) : List (α × β) → Option β
  | [] => none
  | e :: es => if e.1 = k then some e.2 else getEntries k es

/-- The value of a key. -/
def get (m : OrderedMap α β) (k : α) : Option β := getEntries k m.entries

/-- Whether a key has a value. -/
def has (m : OrderedMap α β) (k : α) : Bool := (m.get k).isSome

/-- Removes a key. -/
def delete (m : OrderedMap α β) (k : α) : OrderedMap α β := m.filter fun e => decide (e.1 ≠ k)

/-- The entries with the value of `k` replaced in place, or `(k, v)` appended. -/
def setEntries (k : α) (v : β) : List (α × β) → List (α × β)
  | [] => [(k, v)]
  | e :: es => if e.1 = k then (k, v) :: es else e :: setEntries k v es

/-- The keys after a replacement are the keys before it, with `k` among them. -/
theorem mem_keys_setEntries (k : α) (v : β) (x : α) :
    ∀ es : List (α × β), x ∈ (setEntries k v es).map Prod.fst ↔ x = k ∨ x ∈ es.map Prod.fst
  | [] => by simp [setEntries]
  | e :: es => by
    by_cases he : e.1 = k
    · simp [setEntries, he]
    · simp only [setEntries, if_neg he, List.map_cons, List.mem_cons, mem_keys_setEntries k v x es]
      tauto

/-- A replacement keeps the keys distinct. -/
theorem nodup_setEntries (k : α) (v : β) :
    ∀ es : List (α × β), (es.map Prod.fst).Nodup → ((setEntries k v es).map Prod.fst).Nodup
  | [], _ => by simp [setEntries]
  | e :: es, h => by
    simp only [List.map_cons, List.nodup_cons] at h
    by_cases he : e.1 = k
    · simp only [setEntries, if_pos he, List.map_cons, List.nodup_cons]
      exact he ▸ h
    · simp only [setEntries, if_neg he, List.map_cons, List.nodup_cons, mem_keys_setEntries]
      exact ⟨by tauto, nodup_setEntries k v es h.2⟩

/-- Gives `k` the value `v`. -/
def set (m : OrderedMap α β) (k : α) (v : β) : OrderedMap α β :=
  ⟨setEntries k v m.entries, nodup_setEntries k v m.entries m.nodup⟩

/-- Looking a key up after a replacement. -/
theorem getEntries_setEntries (k : α) (v : β) (x : α) :
    ∀ es : List (α × β), getEntries x (setEntries k v es) = if x = k then some v else getEntries x es
  | [] => by simp [setEntries, getEntries, eq_comm]
  | e :: es => by
    by_cases he : e.1 = k
    · by_cases hx : x = k
      · simp [setEntries, getEntries, he, hx]
      · have hkx : ¬k = x := fun h => hx h.symm
        simp [setEntries, getEntries, he, hx, hkx]
    · simp only [setEntries, if_neg he, getEntries, getEntries_setEntries k v x es]
      by_cases hx : x = k
      · have hex : ¬e.1 = x := fun h => he (h.trans hx)
        simp [hx, he]
      · simp [hx]

/-- A lookup after `set` finds the new value at the key and the old one elsewhere. -/
theorem get_set (m : OrderedMap α β) (k x : α) (v : β) :
    (m.set k v).get x = if x = k then some v else m.get x :=
  getEntries_setEntries k v x m.entries

@[simp] theorem get_set_self (m : OrderedMap α β) (k : α) (v : β) : (m.set k v).get k = some v := by
  simp [get_set]

theorem get_set_of_ne (m : OrderedMap α β) {k x : α} (v : β) (h : x ≠ k) :
    (m.set k v).get x = m.get x := by
  simp [get_set, h]

@[simp] theorem get_empty (k : α) : (empty : OrderedMap α β).get k = none := rfl

/-- A lookup in a list without double keys finds a value exactly when the entry is in it. -/
theorem getEntries_eq_some_iff {k : α} {v : β} :
    ∀ {es : List (α × β)}, (es.map Prod.fst).Nodup → (getEntries k es = some v ↔ (k, v) ∈ es)
  | [], _ => by simp [getEntries]
  | e :: es, h => by
    obtain ⟨x, w⟩ := e
    rw [List.map_cons, List.nodup_cons] at h
    by_cases hx : x = k
    · have hne : (k, v) ∉ es := fun hm => h.1 (hx ▸ List.mem_map.mpr ⟨(k, v), hm, rfl⟩)
      simp [getEntries, hx, hne, eq_comm]
    · have hkx : ¬k = x := fun h => hx h.symm
      simp [getEntries, hx, hkx, getEntries_eq_some_iff h.2]

/-- A key that is in no entry has no value. -/
theorem getEntries_eq_none {k : α} : ∀ {es : List (α × β)}, k ∉ es.map Prod.fst →
    getEntries k es = none
  | [], _ => rfl
  | e :: es, h => by
    rw [List.map_cons, List.mem_cons, not_or] at h
    rw [getEntries, if_neg (Ne.symm h.1)]
    exact getEntries_eq_none h.2

omit [DecidableEq α] in
/-- The keys of the entries that keep a value are some of the keys. -/
theorem keys_filterMap_sublist {γ : Type*} (f : α → β → Option γ) :
    ∀ es : List (α × β), ((es.filterMap fun e => (f e.1 e.2).map (Prod.mk e.1)).map
      Prod.fst).Sublist (es.map Prod.fst)
  | [] => List.Sublist.slnil
  | e :: es => by
    rw [List.filterMap_cons, List.map_cons]
    cases hf : f e.1 e.2 with
    | none => exact (keys_filterMap_sublist f es).cons _
    | some v => exact (keys_filterMap_sublist f es).cons_cons _

/-- Looking a key up among the entries that keep a value. -/
theorem getEntries_filterMap {γ : Type*} (f : α → β → Option γ) (k : α) :
    ∀ {es : List (α × β)}, (es.map Prod.fst).Nodup →
      getEntries k (es.filterMap fun e => (f e.1 e.2).map (Prod.mk e.1)) =
        (getEntries k es).bind (f k)
  | [], _ => rfl
  | e :: es, h => by
    rw [List.map_cons, List.nodup_cons] at h
    have ih := getEntries_filterMap f k h.2
    rw [List.filterMap_cons, getEntries]
    by_cases hk : e.1 = k
    · subst hk
      rw [if_pos rfl, Option.bind_some]
      cases hf : f e.1 e.2 with
      | none =>
        rw [getEntries_eq_none h.1] at ih
        simpa using ih
      | some v => simp [getEntries]
    · rw [if_neg hk]
      cases hf : f e.1 e.2 with
      | none => simpa using ih
      | some v => simpa [getEntries, hk] using ih

/-- A key has the value of its entry. -/
theorem get_eq_some_iff (m : OrderedMap α β) {k : α} {v : β} :
    m.get k = some v ↔ (k, v) ∈ m.entries :=
  getEntries_eq_some_iff m.nodup

section Fold

variable {γ : Type*} {k : γ → α} {v : OrderedMap α β → γ → β}

/-- Setting keys one after the other leaves the other keys as they are. -/
theorem get_foldl_set_of_not_mem {items : List γ} {x : α} (h : x ∉ items.map k)
    (m : OrderedMap α β) :
    (items.foldl (fun t c => t.set (k c) (v t c)) m).get x = m.get x := by
  induction items generalizing m with
  | nil => rfl
  | cons c rest ih =>
    rw [List.map_cons, List.mem_cons, not_or] at h
    rw [List.foldl_cons, ih h.2, get_set_of_ne _ _ h.1]

/-- Setting keys one after the other leaves at each of them a value it was set to. -/
theorem get_foldl_set_of_mem {items : List γ} {x : α} {P : β → Prop} (h : x ∈ items.map k)
    (m : OrderedMap α β) (hP : ∀ t, ∀ c ∈ items, k c = x → P (v t c)) :
    ∃ w, (items.foldl (fun t c => t.set (k c) (v t c)) m).get x = some w ∧ P w := by
  induction items generalizing m with
  | nil => cases h
  | cons c rest ih =>
    rw [List.foldl_cons]
    by_cases hrest : x ∈ rest.map k
    · exact ih hrest _ fun t d hd => hP t d (List.mem_cons_of_mem _ hd)
    · rw [List.map_cons, List.mem_cons] at h
      have hx : x = k c := h.resolve_right hrest
      refine ⟨v m c, ?_, hP m c (List.mem_cons_self ..) hx.symm⟩
      rw [get_foldl_set_of_not_mem hrest, hx, get_set_self]

/-- **Rows set one after the other**: at a key stands what the rows say of it, or what stood there
before. -/
theorem get_foldl_set_rows {rows : List (α × β)} {row : α → Option β}
    (h : ∀ x b, (x, b) ∈ rows ↔ row x = some b) (m : OrderedMap α β) (x : α) :
    (rows.foldl (fun t r => t.set r.1 r.2) m).get x = (row x).or (m.get x) := by
  cases hx : row x with
  | none =>
    rw [Option.none_or]
    refine get_foldl_set_of_not_mem (fun hmem => ?_) _
    obtain ⟨⟨x', b⟩, hr, hkey⟩ := List.mem_map.mp hmem
    obtain rfl : x' = x := hkey
    exact Option.some_ne_none b (((h _ _).mp hr).symm.trans hx)
  | some b =>
    rw [Option.some_or]
    have hmem : x ∈ rows.map Prod.fst := List.mem_map_of_mem (f := Prod.fst) ((h x b).mpr hx)
    obtain ⟨w, hget, rfl⟩ := @get_foldl_set_of_mem _ _ _ _ Prod.fst (fun _ r => r.2) rows x
      (fun w => w = b) hmem m fun _ r hr hkey => by
        obtain ⟨x', b'⟩ := r
        obtain rfl : x' = x := hkey
        exact Option.some.inj (((h _ _).mp hr).symm.trans hx)
    exact hget

end Fold

/-- A lookup in the kept entries finds what it found before, when that is kept. -/
theorem get_filter (m : OrderedMap α β) (p : α × β → Bool) (k : α) :
    (m.filter p).get k = (m.get k).filter fun v => p (k, v) := by
  apply Option.ext
  intro v
  rw [get_eq_some_iff, Option.filter_eq_some_iff, get_eq_some_iff]
  simp [filter, List.mem_filter]

/-- A lookup after `delete` misses the key and finds the old value elsewhere. -/
theorem get_delete (m : OrderedMap α β) (k x : α) :
    (m.delete k).get x = if x = k then none else m.get x := by
  rw [delete, get_filter]
  by_cases hx : x = k
  · simp [hx]
  · cases m.get x <;> simp [hx]

/-- Looking a key up after the value of every key was replaced. -/
theorem getEntries_map {γ : Type*} (f : α → β → γ) (k : α) :
    ∀ es : List (α × β), getEntries k (es.map fun e => (e.1, f e.1 e.2)) =
      (getEntries k es).map (f k)
  | [] => rfl
  | e :: es => by
    by_cases he : e.1 = k
    · simp [getEntries, he]
    · simp [getEntries, he, getEntries_map f k es]

/-- Replaces the value of every key. -/
def mapValues (f : α → β → β) (m : OrderedMap α β) : OrderedMap α β :=
  ⟨m.entries.map fun e => (e.1, f e.1 e.2), by
    have hkeys : (m.entries.map fun e => (e.1, f e.1 e.2)).map Prod.fst = m.entries.map Prod.fst := by
      rw [List.map_map]
      rfl
    rw [hkeys]
    exact m.nodup⟩

/-- A lookup after `mapValues` finds the replaced value. -/
theorem get_mapValues (f : α → β → β) (m : OrderedMap α β) (k : α) :
    (m.mapValues f).get k = (m.get k).map (f k) := by
  apply Option.ext
  intro v
  rw [get_eq_some_iff, Option.map_eq_some_iff]
  simp only [get_eq_some_iff, mapValues, List.mem_map]
  constructor
  · rintro ⟨⟨x, w⟩, hmem, heq⟩
    rw [Prod.mk.injEq] at heq
    obtain ⟨rfl, rfl⟩ := heq
    exact ⟨w, hmem, rfl⟩
  · rintro ⟨w, hmem, rfl⟩
    exact ⟨(k, w), hmem, rfl⟩

end OrderedMap

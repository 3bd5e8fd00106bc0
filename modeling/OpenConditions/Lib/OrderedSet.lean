import Mathlib.Data.List.Nodup

set_option relaxedAutoImplicit false
set_option autoImplicit false

/-!
# Sets in insertion order

A finite set whose members stand in the order in which they were first added.

## Main definitions

* `OrderedSet` — the members, none of them twice.
* `OrderedSet.add`, `OrderedSet.remove` — adding and removing a member.
* `OrderedSet.ofList` — the members of a list.

## Main results

* `OrderedSet.mem_add`, `OrderedSet.mem_remove`, `OrderedSet.mem_ofList` — what the members are.
-/

/-- A finite set whose members stand in the order in which they were first added. -/
structure OrderedSet (α : Type*) where
  members : List α
  /-- No member stands twice. -/
  nodup : members.Nodup

namespace OrderedSet

variable {α : Type*} [DecidableEq α]

/-- The set without members. -/
def empty : OrderedSet α := ⟨[], List.nodup_nil⟩

/-- Adds a member, last when it is new. -/
def add (s : OrderedSet α) (a : α) : OrderedSet α :=
  if h : a ∈ s.members then s
  else ⟨s.members ++ [a], List.nodup_append_comm.mp (List.nodup_cons.mpr ⟨h, s.nodup⟩)⟩

/-- Removes a member. -/
def remove (s : OrderedSet α) (a : α) : OrderedSet α := ⟨s.members.erase a, s.nodup.erase a⟩

/-- The members of a list. -/
def ofList (as : List α) : OrderedSet α := as.foldl add empty

/-- The members after one is added. -/
@[simp] theorem mem_add {s : OrderedSet α} {a x : α} :
    x ∈ (s.add a).members ↔ x ∈ s.members ∨ x = a := by
  unfold add
  split_ifs with h
  · refine ⟨Or.inl, fun hx => hx.elim id ?_⟩
    rintro rfl
    exact h
  · simp

/-- The members after one is removed. -/
@[simp] theorem mem_remove {s : OrderedSet α} {a x : α} :
    x ∈ (s.remove a).members ↔ x ≠ a ∧ x ∈ s.members :=
  s.nodup.mem_erase_iff

/-- The members of a set are those of the list it is made of. -/
@[simp] theorem mem_ofList {as : List α} {x : α} : x ∈ (ofList as).members ↔ x ∈ as := by
  have hfold : ∀ s : OrderedSet α,
      x ∈ (as.foldl add s).members ↔ x ∈ s.members ∨ x ∈ as := by
    induction as with
    | nil => simp
    | cons a as ih =>
      intro s
      rw [List.foldl_cons, ih, mem_add, List.mem_cons, or_assoc]
  rw [ofList, hfold]
  simp [empty]

end OrderedSet

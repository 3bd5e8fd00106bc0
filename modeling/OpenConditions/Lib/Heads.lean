import Mathlib.Logic.Relation

set_option relaxedAutoImplicit false
set_option autoImplicit false

/-!
# Heads of merged classes

Values are merged two classes at a time: the head of one class becomes that of both.  A function
that tells each value's head then tells the classes that the merges connect.

## Main definitions

* `Heads.Connected` — the classes that some merges connect.
* `Heads.join` — the heads after one more merge.
* `Heads.HeadsOf` — a function tells the heads.

## Main results

* `Heads.HeadsOf.join` — one more merge of two heads.
* `Heads.HeadsOf.connected_iff` — values are connected exactly when they have one head.
-/

namespace Heads

variable {α : Type*}

/-- The classes that some merges connect. -/
def Connected (merges : List (α × α)) : α → α → Prop :=
  Relation.EqvGen fun a b => (a, b) ∈ merges

/-- A function tells the heads of the classes that some merges connect. -/
structure HeadsOf (merges : List (α × α)) (head : α → α) : Prop where
  idem : ∀ x, head (head x) = head x
  reaches : ∀ x, Connected merges x (head x)
  merged : ∀ a b, (a, b) ∈ merges → head a = head b

/-- Without merges each value is its own head. -/
theorem HeadsOf.nil : HeadsOf ([] : List (α × α)) id where
  idem _ := rfl
  reaches x := .refl x
  merged _ _ h := by cases h

/-- **Values are connected exactly when they have one head.** -/
theorem HeadsOf.connected_iff {merges : List (α × α)} {head : α → α} (h : HeadsOf merges head)
    {x y : α} : Connected merges x y ↔ head x = head y := by
  constructor
  · intro hxy
    induction hxy with
    | rel a b hab => exact h.merged a b hab
    | refl a => rfl
    | symm a b _ ih => exact ih.symm
    | trans a b c _ _ ihab ihbc => exact ihab.trans ihbc
  · intro hxy
    exact (h.reaches x).trans _ _ _ (hxy ▸ (h.reaches y).symm)

variable [DecidableEq α]

/-- The heads after the class of `m` joins that of `p`. -/
def join (head : α → α) (p m : α) (x : α) : α := if head x = m then p else head x

/-- A value of a class that does not join another keeps its head. -/
theorem join_of_ne {head : α → α} {p m x : α} (h : head x ≠ m) : join head p m x = head x :=
  if_neg h

/-- A value of the class that joins another has the other's head. -/
theorem join_of_eq {head : α → α} {p m x : α} (h : head x = m) : join head p m x = p := if_pos h

/-- **One more merge of two heads.** -/
theorem HeadsOf.join {merges : List (α × α)} {head : α → α} (h : HeadsOf merges head) {p m : α}
    (hp : head p = p) (hm : head m = m) (hne : p ≠ m) :
    HeadsOf (merges ++ [(p, m)]) (Heads.join head p m) where
  idem x := by
    by_cases hx : head x = m
    · rw [join_of_eq hx, join_of_ne (by rwa [hp]), hp]
    · rw [join_of_ne hx, join_of_ne (by rwa [h.idem]), h.idem]
  reaches x := by
    have hold : Connected (merges ++ [(p, m)]) x (head x) :=
      Relation.EqvGen.mono (fun _ _ => List.mem_append_left _) _ _ (h.reaches x)
    by_cases hx : head x = m
    · rw [join_of_eq hx]
      rw [hx] at hold
      exact hold.trans _ _ _ (.symm _ _
        (.rel _ _ (List.mem_append_right _ (List.mem_singleton_self _))))
    · rwa [join_of_ne hx]
  merged a b hab := by
    rcases List.mem_append.mp hab with hab | hab
    · unfold Heads.join
      rw [h.merged a b hab]
    · obtain ⟨rfl, rfl⟩ := Prod.mk.inj (List.mem_singleton.mp hab)
      rw [join_of_eq hm, join_of_ne (by rwa [hp]), hp]

end Heads

import Mathlib.Algebra.BigOperators.Group.List.Basic
import Mathlib.Algebra.Ring.Nat
import Mathlib.Data.List.Dedup

set_option relaxedAutoImplicit false
set_option autoImplicit false

/-!
# Grouping

The items of a list by a key of theirs.

## Main definitions

* `Grouping.keys`, `Grouping.group` — the keys of a list, and the items of a key.
* `Grouping.totals`, `Grouping.weight` — the weights of keys, summed by key and in all.

## Main results

* `Grouping.flatMap_group_perm` — the groups are the list in another order.
* `Grouping.sum_group` — what is summed group by group is summed over the list.
* `Grouping.select_group` — and what is selected group by group is selected in the list.
* `Grouping.keys_group`, `Grouping.group_group` — groups within groups.
* `Grouping.weight_totals` — summing by key keeps every weight.
-/

namespace Grouping

variable {α κ : Type*} [DecidableEq κ] {key : α → κ} {l : List α}

/-- The items of a key. -/
def group (key : α → κ) (l : List α) (k : κ) : List α := l.filter fun a => decide (key a = k)

/-- The keys of a list. -/
def keys (key : α → κ) (l : List α) : List κ := (l.map key).dedup

/-- A key is that of some item. -/
theorem mem_keys {k : κ} : k ∈ keys key l ↔ ∃ a ∈ l, key a = k := by
  unfold keys
  rw [List.mem_dedup, List.mem_map]

/-- No key stands twice. -/
theorem nodup_keys : (keys key l).Nodup := List.nodup_dedup _

/-- An item of a group is one of its key. -/
theorem mem_group {k : κ} {a : α} : a ∈ group key l k ↔ a ∈ l ∧ key a = k := by
  unfold group
  rw [List.mem_filter, decide_eq_true_eq]

/-- The group of a key has an item. -/
theorem group_ne_nil {k : κ} : group key l k ≠ [] ↔ k ∈ keys key l := by
  rw [mem_keys, List.ne_nil_iff_exists_cons]
  constructor
  · rintro ⟨a, rest, h⟩
    have ha : a ∈ group key l k := by
      rw [h]
      exact List.mem_cons_self ..
    exact ⟨a, Iff.mp mem_group ha⟩
  · rintro ⟨a, ha⟩
    exact List.exists_cons_of_ne_nil (List.ne_nil_of_mem (Iff.mpr mem_group ha))

/-- The groups of keys that cover a list are the list in another order. -/
theorem flatMap_perm {ks : List κ} (hks : ks.Nodup) (hcovers : ∀ a ∈ l, key a ∈ ks) :
    (ks.flatMap (group key l)).Perm l := by
  induction ks generalizing l with
  | nil =>
    cases l with
    | nil => exact .refl _
    | cons a l => exact absurd (hcovers a (List.mem_cons_self ..)) List.not_mem_nil
  | cons k ks ih =>
    rw [List.nodup_cons] at hks
    have hrest : ks.flatMap (group key l) =
        ks.flatMap (group key (l.filter fun a => !decide (key a = k))) := by
      refine List.flatMap_congr fun k' hk' => ?_
      unfold group
      rw [List.filter_filter]
      refine List.filter_congr fun a _ => ?_
      by_cases ha : key a = k'
      · have hne : k' ≠ k := fun heq => hks.1 (heq ▸ hk')
        simp [ha, hne]
      · simp [ha]
    rw [List.flatMap_cons, hrest]
    refine .trans (.append_left _ (ih hks.2 fun a ha => ?_)) (List.filter_append_perm _ l)
    obtain ⟨ha, hne⟩ := List.mem_filter.mp ha
    rcases List.mem_cons.mp (hcovers a ha) with heq | hmem
    · simp [heq] at hne
    · exact hmem

/-- **The groups are the list in another order.** -/
theorem flatMap_group_perm (key : α → κ) (l : List α) :
    ((keys key l).flatMap (group key l)).Perm l :=
  flatMap_perm nodup_keys fun a ha => Iff.mpr mem_keys ⟨a, ha, rfl⟩

/-- What is summed group by group is summed over the list. -/
theorem sum_group {M : Type*} [AddCommMonoid M] (key : α → κ) (f : α → M) (l : List α) :
    ((keys key l).map fun k => ((group key l k).map f).sum).sum = (l.map f).sum := by
  have hflat : (((keys key l).flatMap (group key l)).map f).sum =
      ((keys key l).map fun k => ((group key l k).map f).sum).sum := by
    rw [List.flatMap_def, List.map_flatten, List.sum_flatten, List.map_map, List.map_map]
    rfl
  rw [← hflat]
  exact ((flatMap_group_perm key l).map f).sum_eq

/-- What is selected among what the groups have selected is what is selected in the list, where a
selected value is a member that stands before all of them. -/
theorem select_group {M : Type*} {sel : List M → Option M} {R : M → M → Prop}
    (key : α → κ) (f : α → M) (l : List α)
    (hsel : ∀ (xs : List M) (a : M), sel xs = some a ↔ a ∈ xs ∧ ∀ b ∈ xs, R a b)
    (hnone : ∀ xs : List M, sel xs = none ↔ xs = []) :
    sel ((keys key l).filterMap fun k => sel ((group key l k).map f)) = sel (l.map f) := by
  have hmem : ∀ k, ∀ b ∈ (group key l k).map f, b ∈ l.map f := by
    intro k b hb
    obtain ⟨x, hx, rfl⟩ := List.mem_map.mp hb
    exact List.mem_map_of_mem (Iff.mp mem_group hx).1
  cases hl : sel (l.map f) with
  | none =>
    rw [hnone, List.map_eq_nil_iff] at hl
    rw [hnone, hl]
    rfl
  | some a =>
    obtain ⟨ha, hleast⟩ := (hsel _ _).mp hl
    obtain ⟨x, hx, rfl⟩ := List.mem_map.mp ha
    refine (hsel _ _).mpr ⟨List.mem_filterMap.mpr ⟨key x, Iff.mpr mem_keys ⟨x, hx, rfl⟩, ?_⟩, ?_⟩
    · exact (hsel _ _).mpr ⟨List.mem_map_of_mem (Iff.mpr mem_group ⟨hx, rfl⟩),
        fun b hb => hleast b (hmem _ b hb)⟩
    · intro b hb
      obtain ⟨k, _, hb⟩ := List.mem_filterMap.mp hb
      exact hleast b (hmem k b ((hsel _ _).mp hb).1)

/-- Deduplication and a filter can be done in either order. -/
theorem filter_dedup (p : α → Bool) [DecidableEq α] (l : List α) :
    l.dedup.filter p = (l.filter p).dedup := by
  induction l with
  | nil => rfl
  | cons a l ih =>
    by_cases ha : a ∈ l
    · rw [List.dedup_cons_of_mem ha, ih]
      cases hp : p a with
      | false => rw [List.filter_cons_of_neg (by simp [hp])]
      | true =>
        rw [List.filter_cons_of_pos hp, List.dedup_cons_of_mem (List.mem_filter.mpr ⟨ha, hp⟩)]
    · rw [List.dedup_cons_of_notMem ha]
      cases hp : p a with
      | false =>
        rw [List.filter_cons_of_neg (by simp [hp]), List.filter_cons_of_neg (by simp [hp]), ih]
      | true =>
        rw [List.filter_cons_of_pos hp, List.filter_cons_of_pos hp, ih,
          List.dedup_cons_of_notMem fun hmem => ha (List.mem_of_mem_filter hmem)]

/-- The keys of a group by what is told by the key are the list's keys that tell so. -/
theorem keys_group {μ : Type*} [DecidableEq μ] (key : α → κ) (g : κ → μ) (l : List α) (m : μ) :
    keys key (group (fun a => g (key a)) l m) = (keys key l).filter fun k => decide (g k = m) := by
  unfold keys group
  rw [filter_dedup, List.filter_map]
  rfl

/-- A group of a group by what is told by the key is the list's. -/
theorem group_group {μ : Type*} [DecidableEq μ] (key : α → κ) (g : κ → μ) (l : List α) (k : κ) :
    group key (group (fun a => g (key a)) l (g k)) k = group key l k := by
  unfold group
  rw [List.filter_filter]
  refine List.filter_congr fun a _ => ?_
  by_cases ha : key a = k
  · simp [ha]
  · simp [ha]

/-! ## Weights -/

/-- The weights of each key summed. -/
def totals (us : List (κ × ℕ)) : List (κ × ℕ) :=
  (keys Prod.fst us).map fun k => (k, ((group Prod.fst us k).map Prod.snd).sum)

/-- The weight of the keys that pass a test. -/
def weight (p : κ → Bool) (us : List (κ × ℕ)) : ℕ := ((us.filter fun u => p u.1).map Prod.snd).sum

variable {us us' : List (κ × ℕ)}

/-- A key has a total when it has a weight. -/
theorem mem_totals {k : κ} : (∃ c, (k, c) ∈ totals us) ↔ ∃ c, (k, c) ∈ us := by
  unfold totals
  constructor
  · rintro ⟨c, hc⟩
    obtain ⟨k', hk', heq⟩ := List.mem_map.mp hc
    obtain ⟨rfl, _⟩ := Prod.mk.inj heq
    obtain ⟨⟨k'', c'⟩, hu, hkey⟩ := Iff.mp mem_keys hk'
    obtain rfl : k'' = k' := hkey
    exact ⟨c', hu⟩
  · rintro ⟨c, hc⟩
    exact ⟨_, List.mem_map_of_mem (Iff.mpr mem_keys ⟨(k, c), hc, rfl⟩)⟩

/-- **Summing by key** keeps every weight. -/
theorem weight_totals (p : κ → Bool) (us : List (κ × ℕ)) :
    weight p (totals us) = weight p us := by
  have hkeys : (keys Prod.fst us).filter p = keys Prod.fst (us.filter fun u => p u.1) := by
    unfold keys
    rw [filter_dedup, List.filter_map]
    rfl
  have hgroup : ∀ k, p k = true →
      group Prod.fst (us.filter fun u => p u.1) k = group Prod.fst us k := by
    intro k hk
    unfold group
    rw [List.filter_filter]
    refine List.filter_congr fun u _ => ?_
    by_cases hu : u.1 = k
    · simp [hu, hk]
    · simp [hu]
  unfold weight totals
  rw [List.filter_map, List.map_map, ← sum_group Prod.fst Prod.snd (us.filter fun u => p u.1),
    ← hkeys]
  refine congrArg List.sum (List.map_congr_left fun k hk => ?_)
  have hp : p k = true := (List.mem_filter.mp hk).2
  rw [hgroup k hp]
  rfl

omit [DecidableEq κ] in
/-- The weights of a list do not depend on its order. -/
theorem weight_perm (p : κ → Bool) (h : us.Perm us') : weight p us = weight p us' :=
  ((h.filter _).map _).sum_eq

omit [DecidableEq κ] in
/-- The weight of lists one after the other. -/
theorem weight_flatMap {β : Type*} (p : κ → Bool) (f : β → List (κ × ℕ)) (l : List β) :
    weight p (l.flatMap f) = (l.map fun b => weight p (f b)).sum := by
  induction l with
  | nil => rfl
  | cons b l ih =>
    unfold weight at ih ⊢
    rw [List.flatMap_cons, List.filter_append, List.map_append, List.sum_append, ih,
      List.map_cons, List.sum_cons]

omit [DecidableEq κ] in
/-- The weight of lists that each carry the weight of a key, or none. -/
theorem weight_flatMap_ite {κ' : Type*} {p : κ → Bool} {q : κ' → Bool}
    {f : κ × ℕ → List (κ' × ℕ)} (h : ∀ u, weight q (f u) = if p u.1 then u.2 else 0)
    (us : List (κ × ℕ)) : weight q (us.flatMap f) = weight p us := by
  induction us with
  | nil => rfl
  | cons u us ih =>
    unfold weight at ih h ⊢
    rw [List.flatMap_cons, List.filter_append, List.map_append, List.sum_append, ih, h]
    cases hp : p u.1 with
    | true => simp [hp]
    | false => simp [hp]

omit [DecidableEq κ] in
/-- The weights of items that each count once are their numbers. -/
theorem weight_ones (p : κ → Bool) (ks : List κ) :
    weight p (ks.map fun k => (k, 1)) = ks.countP p := by
  unfold weight
  induction ks with
  | nil => rfl
  | cons k ks ih =>
    rw [List.map_cons, List.countP_cons, ← ih]
    cases hp : p k with
    | true => simp [hp, add_comm]
    | false => simp [hp]

/-- How often each item stands in a list. -/
theorem totals_ones (ks : List κ) :
    totals (ks.map fun k => (k, 1)) =
      ks.dedup.map fun k => (k, ks.countP fun k' => decide (k' = k)) := by
  have hkeys : keys Prod.fst (ks.map fun k => (k, 1)) = ks.dedup := by
    unfold keys
    rw [List.map_map]
    exact congrArg List.dedup (List.map_id ks)
  unfold totals
  rw [hkeys]
  refine List.map_congr_left fun k _ => ?_
  have hcount := weight_ones (fun k' => decide (k' = k)) ks
  exact congrArg (Prod.mk k) hcount

/-- How many members of a list pass a test is summed group by group. -/
theorem countP_group (key : α → κ) (p : α → Bool) (l : List α) :
    ((keys key l).map fun k => (group key l k).countP p).sum = l.countP p := by
  rw [← (flatMap_group_perm key l).countP_eq p, List.countP_flatMap]
  rfl

end Grouping

import Mathlib.Data.List.Sort

set_option relaxedAutoImplicit false
set_option autoImplicit false

/-!
# Sorting by a comparison

A stable sort of a list by a comparison that a program gives as a function.  Where the comparison
is a total preorder that separates the members of the list, the result depends on the members
only, and sorting commutes with leaving members out.

## Main definitions

* `Sorting.sortBy` — the list in the order of a comparison.
* `Sorting.OrdersBy` — the comparison is a total preorder.
* `Sorting.descendingThen` — the larger number first, ties by another comparison.

## Main results

* `Sorting.sortBy_congr_perm` — the result depends on the members only.
* `Sorting.sortBy_filter` — sorting commutes with leaving members out.
* `Sorting.eq_of_tied_swaps` — what swapping tied neighbours leaves depends on the members only.
* `Sorting.head_sortBy` — no member stands above the first.
* `Sorting.findSome?_eq_of_mem_iff` — which member of a list in order is accepted first.
-/

namespace Sorting

variable {α : Type*} {le : α → α → Bool} {l l' : List α}

/-- The members of a list in the order of a comparison, ties as they stand. -/
def sortBy (le : α → α → Bool) (l : List α) : List α :=
  l.insertionSort fun a b => le a b = true

/-- The comparison is a total preorder. -/
structure OrdersBy (le : α → α → Bool) : Prop where
  total : ∀ a b, le a b = true ∨ le b a = true
  trans : ∀ a b c, le a b = true → le b c = true → le a c = true

/-- The comparison tells the members of a list apart. -/
def Separates (le : α → α → Bool) (l : List α) : Prop :=
  ∀ a ∈ l, ∀ b ∈ l, le a b = true → le b a = true → a = b

/-- Sorting keeps the members. -/
theorem sortBy_perm (le : α → α → Bool) (l : List α) : (sortBy le l).Perm l :=
  List.perm_insertionSort _ l

/-- Sorting keeps the members. -/
theorem mem_sortBy {a : α} : a ∈ sortBy le l ↔ a ∈ l := (sortBy_perm le l).mem_iff

/-- A sorted list is in order. -/
theorem sortBy_pairwise (h : OrdersBy le) (l : List α) :
    (sortBy le l).Pairwise fun a b => le a b = true := by
  have : Std.Total fun a b : α => le a b = true := ⟨h.total⟩
  have : IsTrans α fun a b => le a b = true := ⟨h.trans⟩
  exact List.pairwise_insertionSort _ l

/-- Two lists in order with the same members are one. -/
theorem eq_of_perm_of_pairwise (hsep : Separates le l) (hperm : l.Perm l')
    (hl : l.Pairwise fun a b => le a b = true) (hl' : l'.Pairwise fun a b => le a b = true) :
    l = l' :=
  hperm.eq_of_pairwise (fun a b ha hb hab hba => hsep a ha b (hperm.mem_iff.mpr hb) hab hba) hl hl'

/-- **The order depends on the members only**, where the comparison tells them apart. -/
theorem sortBy_congr_perm (h : OrdersBy le) (hsep : Separates le l) (hperm : l.Perm l') :
    sortBy le l = sortBy le l' := by
  have hsep' : Separates le (sortBy le l) := fun a ha b hb =>
    hsep a (Iff.mp mem_sortBy ha) b (Iff.mp mem_sortBy hb)
  exact eq_of_perm_of_pairwise hsep'
    ((sortBy_perm le l).trans (hperm.trans (sortBy_perm le l').symm))
    (sortBy_pairwise h l) (sortBy_pairwise h l')

/-- A member is put among the members that are left as among all of them. -/
theorem filter_orderedInsert (h : OrdersBy le) (a : α) (p : α → Bool)
    (hl : l.Pairwise fun a b => le a b = true) :
    (List.orderedInsert (fun a b => le a b = true) a l).filter p =
      if p a then List.orderedInsert (fun a b => le a b = true) a (l.filter p)
      else l.filter p := by
  induction l with
  | nil => cases hp : p a <;> simp [hp]
  | cons b l ih =>
    obtain ⟨hb, hl⟩ := List.pairwise_cons.mp hl
    have ih := ih hl
    rw [List.orderedInsert_cons]
    by_cases hle : le a b = true
    · rw [if_pos hle]
      cases hp : p a with
      | false => simp [hp]
      | true =>
        rw [List.filter_cons_of_pos hp, if_pos rfl]
        -- the member stands before whichever comes first of those that are left
        cases hrest : (b :: l).filter p with
        | nil => rfl
        | cons c rest =>
          have hc : c ∈ b :: l := List.mem_of_mem_filter (hrest ▸ List.mem_cons_self ..)
          have hac : le a c = true := by
            rcases List.mem_cons.mp hc with rfl | hc
            · exact hle
            · exact h.trans _ _ _ hle (hb c hc)
          rw [List.orderedInsert_cons, if_pos hac]
    · rw [if_neg hle]
      cases hpb : p b with
      | false =>
        rw [List.filter_cons_of_neg (by simp [hpb]), List.filter_cons_of_neg (by simp [hpb]), ih]
      | true =>
        rw [List.filter_cons_of_pos hpb, List.filter_cons_of_pos hpb, ih]
        cases hp : p a with
        | false => rfl
        | true => rw [if_pos rfl, if_pos rfl, List.orderedInsert_cons, if_neg hle]

/-- **Sorting commutes with leaving members out.** -/
theorem sortBy_filter (h : OrdersBy le) (p : α → Bool) :
    sortBy le (l.filter p) = (sortBy le l).filter p := by
  induction l with
  | nil => rfl
  | cons a l ih =>
    have hinsert := filter_orderedInsert h a p (sortBy_pairwise h l)
    unfold sortBy at ih hinsert ⊢
    rw [List.insertionSort_cons, hinsert, ← ih]
    cases hp : p a with
    | false => rw [List.filter_cons_of_neg (by simp [hp]), if_neg (by simp)]
    | true => rw [List.filter_cons_of_pos hp, if_pos rfl, List.insertionSort_cons]

/-- Sorting reads the comparison of members only. -/
theorem sortBy_congr_le {le' : α → α → Bool} (h : ∀ a ∈ l, ∀ b ∈ l, le a b = le' a b) :
    sortBy le l = sortBy le' l := by
  induction l with
  | nil => rfl
  | cons a l ih =>
    have hrest := ih fun x hx y hy => h x (List.mem_cons_of_mem _ hx) y (List.mem_cons_of_mem _ hy)
    unfold sortBy at hrest ⊢
    rw [List.insertionSort_cons, List.insertionSort_cons, ← hrest]
    have hmem : ∀ b ∈ List.insertionSort (fun a b => le a b = true) l, le a b = le' a b :=
      fun b hb => h a (List.mem_cons_self ..) b
        (List.mem_cons_of_mem _ ((List.perm_insertionSort _ l).mem_iff.mp hb))
    generalize List.insertionSort (fun a b => le a b = true) l = sorted at hmem
    induction sorted with
    | nil => rfl
    | cons b sorted ih' =>
      rw [List.orderedInsert_cons, List.orderedInsert_cons, hmem b (List.mem_cons_self ..),
        ih' fun c hc => hmem c (List.mem_cons_of_mem _ hc)]

/-- A list in order is left as it is. -/
theorem sortBy_eq_self (h : OrdersBy le) (hl : l.Pairwise fun a b => le a b = true) :
    sortBy le l = l := by
  have : Std.Total fun a b : α => le a b = true := ⟨h.total⟩
  have : IsTrans α fun a b => le a b = true := ⟨h.trans⟩
  exact hl.insertionSort_eq

/-- **No member stands above the first**, by a value that the comparison does not go against. -/
theorem head_sortBy {K : Type*} [LinearOrder K] {f : α → K}
    (htrue : ∀ x y, le x y = true → f y ≤ f x) (hfalse : ∀ x y, le x y = false → f x ≤ f y)
    {a : α} {rest : List α} (hsort : sortBy le l = a :: rest) : ∀ b ∈ l, f b ≤ f a := by
  induction l generalizing a rest with
  | nil => cases hsort
  | cons x l ih =>
    have hinsert : sortBy le (x :: l) =
        List.orderedInsert (fun a b => le a b = true) x (sortBy le l) := by
      unfold sortBy
      rw [List.insertionSort_cons]
    rw [hinsert] at hsort
    cases hl : sortBy le l with
    | nil =>
      rw [hl] at hsort
      obtain ⟨rfl, -⟩ := List.cons.inj hsort
      have hnil : l = [] := (hl ▸ sortBy_perm le l).symm.eq_nil
      simp [hnil]
    | cons y rest' =>
      have hbest := ih hl
      rw [hl, List.orderedInsert_cons] at hsort
      intro b hb
      split_ifs at hsort with hle
      · obtain ⟨rfl, -⟩ := List.cons.inj hsort
        rcases List.mem_cons.mp hb with rfl | hb
        · exact le_rfl
        · exact (hbest b hb).trans (htrue _ _ hle)
      · obtain ⟨rfl, -⟩ := List.cons.inj hsort
        rcases List.mem_cons.mp hb with rfl | hb
        · exact hfalse _ _ (Bool.eq_false_iff.mpr hle)
        · exact hbest b hb

/-! ## Tied neighbours -/

section Ties

variable {β : Type*} {f : List α → β}

/-- Swapping two neighbours that tie leaves a list in order. -/
theorem pairwise_swap {u v : List α} {p q : α} (h : (u ++ p :: q :: v).Pairwise fun a b => le a b = true)
    (hle : le q p = true) : (u ++ q :: p :: v).Pairwise fun a b => le a b = true := by
  rw [List.pairwise_append, List.pairwise_cons, List.pairwise_cons] at h ⊢
  obtain ⟨hu, ⟨hp, hq, hv⟩, huv⟩ := h
  refine ⟨hu, ⟨fun y hy => ?_, fun y hy => hp y (List.mem_cons_of_mem _ hy), hv⟩,
    fun x hx y hy => huv x hx y ?_⟩
  · rcases List.mem_cons.mp hy with rfl | hy
    · exact hle
    · exact hq y hy
  · simp only [List.mem_cons] at hy ⊢
    tauto

variable (hswap : ∀ u p q v, (u ++ p :: q :: v).Perm l →
  (u ++ p :: q :: v).Pairwise (fun a b => le a b = true) → le q p = true →
  f (u ++ p :: q :: v) = f (u ++ q :: p :: v))

include hswap

/-- A member moves in front of those it ties with. -/
theorem eq_of_move_front {a : α} {v : List α} {u : List α} : ∀ {front : List α},
    (∀ p ∈ u, le a p = true) → (front ++ (u ++ a :: v)).Perm l →
    (front ++ (u ++ a :: v)).Pairwise (fun a b => le a b = true) →
    (front ++ a :: (u ++ v)).Pairwise (fun a b => le a b = true) ∧
      f (front ++ (u ++ a :: v)) = f (front ++ a :: (u ++ v)) := by
  induction u with
  | nil => exact fun _ _ h => ⟨h, rfl⟩
  | cons p u ih =>
    intro front htie hperm h
    have hshift : front ++ (p :: u ++ a :: v) = front ++ [p] ++ (u ++ a :: v) := by simp
    rw [hshift] at hperm h ⊢
    obtain ⟨hsorted, heq⟩ := ih (fun q hq => htie q (List.mem_cons_of_mem _ hq)) hperm h
    have hsplit : front ++ [p] ++ a :: (u ++ v) = front ++ p :: a :: (u ++ v) := by simp
    have hperm' : (front ++ p :: a :: (u ++ v)).Perm l := by
      rw [← hsplit]
      exact (List.perm_middle.symm.append_left _).trans hperm
    rw [hsplit] at hsorted heq
    have hle := htie p (List.mem_cons_self ..)
    exact ⟨pairwise_swap hsorted hle, heq.trans (hswap front p a (u ++ v) hperm' hsorted hle)⟩

/-- **What swapping tied neighbours leaves depends on the members only**: two lists in order with
the same members come to the same.

**Proof sketch.** Induction on the first list.  Its first member stands somewhere in the second;
those before it there come after it in the first, and so tie with it.  It is moved in front of
them. -/
theorem eq_of_tied_swaps (hl : l.Pairwise fun a b => le a b = true)
    (hl' : l'.Pairwise fun a b => le a b = true) (hperm : l.Perm l') : f l = f l' := by
  have hgeneral : ∀ (t front t' : List α), (front ++ t).Perm l →
      (front ++ t).Pairwise (fun a b => le a b = true) →
      (front ++ t').Pairwise (fun a b => le a b = true) → t.Perm t' →
      f (front ++ t) = f (front ++ t') := by
    intro t
    induction t with
    | nil =>
      intro front t' _ _ _ h
      rw [h.symm.eq_nil]
    | cons a t ih =>
      intro front t' hmembers ht ht' h
      obtain ⟨u, v, rfl⟩ := List.append_of_mem (h.mem_iff.mp (List.mem_cons_self ..))
      have hrest : t.Perm (u ++ v) := (h.trans List.perm_middle).cons_inv
      have htie : ∀ p ∈ u, le a p = true := by
        intro p hp
        have hpt : p ∈ t := hrest.mem_iff.mpr (List.mem_append_left _ hp)
        exact (List.pairwise_cons.mp (List.pairwise_append.mp ht).2.1).1 p hpt
      obtain ⟨hsorted, hmove⟩ := eq_of_move_front hswap htie
        ((h.symm.append_left front).trans hmembers) ht'
      rw [hmove]
      have hnext := ih (front ++ [a]) (u ++ v) (by simpa using hmembers) (by simpa using ht)
        (by simpa using hsorted) hrest
      simpa using hnext
  exact hgeneral l [] l' (List.Perm.refl _) hl hl' hperm

end Ties

/-! ## A number, then another comparison -/

section Descending

variable {K : Type*} [LinearOrder K] {f : α → K} {x y : α}

/-- The larger number first, as the sign of the difference tells, infinite ones included; ties by
another comparison. -/
def descendingThen (f : α → K) (le : α → α → Bool) (x y : α) : Bool :=
  if f y ≠ f x then decide (f y ≤ f x) else le x y

/-- What it takes to stand before another. -/
theorem descendingThen_iff : descendingThen f le x y = true ↔
    f y < f x ∨ (f x = f y ∧ le x y = true) := by
  unfold descendingThen
  rcases lt_trichotomy (f x) (f y) with hlt | heq | hgt
  · rw [if_pos hlt.ne', decide_eq_true_eq]
    simp [hlt.not_ge, hlt.not_gt, hlt.ne]
  · simp [heq]
  · rw [if_pos hgt.ne, decide_eq_true_eq]
    simp [hgt, hgt.le]

/-- A number with a total preorder for its ties is one. -/
theorem OrdersBy.descendingThen (h : OrdersBy le) : OrdersBy (descendingThen f le) where
  total x y := by
    rw [descendingThen_iff, descendingThen_iff]
    rcases lt_trichotomy (f x) (f y) with hlt | heq | hgt
    · exact Or.inr (Or.inl hlt)
    · exact (h.total x y).imp (fun h => Or.inr ⟨heq, h⟩) fun h => Or.inr ⟨heq.symm, h⟩
    · exact Or.inl (Or.inl hgt)
  trans x y z := by
    rw [descendingThen_iff, descendingThen_iff, descendingThen_iff]
    rintro (hxy | ⟨hxy, hle⟩) (hyz | ⟨hyz, hle'⟩)
    · exact Or.inl (hyz.trans hxy)
    · exact Or.inl (hyz ▸ hxy)
    · exact Or.inl (hxy ▸ hyz)
    · exact Or.inr ⟨hxy.trans hyz, h.trans x y z hle hle'⟩

/-- Members that stand before each other tie. -/
theorem tie_of_descendingThen (hxy : Sorting.descendingThen f le x y = true)
    (hyx : Sorting.descendingThen f le y x = true) : le x y = true ∧ le y x = true := by
  rw [descendingThen_iff] at hxy hyx
  rcases hxy with hlt | ⟨heq, hle⟩
  · rcases hyx with hlt' | ⟨heq, -⟩
    · exact absurd hlt hlt'.not_gt
    · exact absurd heq hlt.ne
  · rcases hyx with hlt' | ⟨-, hle'⟩
    · exact absurd heq hlt'.ne
    · exact ⟨hle, hle'⟩

end Descending

/-! ## The first member that is accepted -/

/-- The first member that is accepted is the first of those that are. -/
theorem findSome?_filter {β : Type*} {f : α → Option β} (l : List α) :
    (l.filter fun a => (f a).isSome).findSome? f = l.findSome? f := by
  induction l with
  | nil => rfl
  | cons a l ih =>
    cases ha : f a with
    | none =>
      rw [List.filter_cons_of_neg (by simp [ha]), ih, List.findSome?_cons_of_isNone (by simp [ha])]
    | some b =>
      rw [List.filter_cons_of_pos (by simp [ha]), List.findSome?_cons, List.findSome?_cons, ha]

/-- **The first member that is accepted** depends on which of those accepted are in the list. -/
theorem findSome?_eq_of_mem_iff {κ β : Type*} [LinearOrder κ] {f : κ → Option β} {l l' : List κ}
    (hl : l.Pairwise (· < ·)) (hl' : l'.Pairwise (· < ·))
    (h : ∀ a, (f a).isSome = true → (a ∈ l ↔ a ∈ l')) : l.findSome? f = l'.findSome? f := by
  rw [← findSome?_filter l, ← findSome?_filter l']
  refine congrArg (List.findSome? f) ((hl.filter _).eq_of_mem_iff (hl'.filter _) fun a => ?_)
  rw [List.mem_filter, List.mem_filter]
  exact and_congr_left (h a)

end Sorting

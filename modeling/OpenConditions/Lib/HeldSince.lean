import Mathlib.Data.List.Induction

set_option relaxedAutoImplicit false
set_option autoImplicit false

/-!
# Since when a value holds

A sequence of timed values, and the value in effect after each with the time it holds since: a value
that repeats the one in effect keeps its time, another one starts at its own.

## Main definitions

* `HeldSince.after` — the value in effect after some values, and since when it holds.
* `HeldSince.EndsInRun` — the sequence ends in a run of one value that starts at a time.
* `HeldSince.Unmoved` — values that may stand before others and leave what the others end in.

## Main results

* `HeldSince.after_cases` — what is in effect after some values.
* `HeldSince.after_append_eq_iff` — when values that stand before others change nothing at the end.
-/

namespace HeldSince

variable {V T : Type*} [DecidableEq V]

/-! ## Values in effect -/

/-- The value in effect once another has followed. -/
def take (held : Option (V × T)) (x : V × T) : V × T :=
  match held with
  | some h => if h.1 = x.1 then h else x
  | none => x

/-- The value in effect after some values. -/
def after (held : Option (V × T)) (xs : List (V × T)) : Option (V × T) :=
  xs.foldl (fun held x => some (take held x)) held

/-- The sequence ends in a run of a value that starts at a time, and another value stands before
it. -/
def EndsInRun (v : V) (t : T) (xs : List (V × T)) : Prop :=
  ∃ before other run, xs = before ++ other :: (v, t) :: run ∧ other.1 ≠ v ∧ ∀ x ∈ run, x.1 = v

/-- The value in effect is the last one. -/
theorem fst_take (held : Option (V × T)) (x : V × T) : (take held x).1 = x.1 := by
  cases held with
  | none => rfl
  | some h =>
    rw [take]
    by_cases hx : h.1 = x.1
    · rw [if_pos hx, hx]
    · rw [if_neg hx]

/-- Values after others. -/
theorem after_append (held : Option (V × T)) (xs ys : List (V × T)) :
    after held (xs ++ ys) = after (after held xs) ys := List.foldl_append

/-- One value after others. -/
theorem after_concat (held : Option (V × T)) (xs : List (V × T)) (x : V × T) :
    after held (xs ++ [x]) = some (take (after held xs) x) := by
  rw [after_append]
  rfl

/-- One value before others. -/
theorem after_cons (held : Option (V × T)) (x : V × T) (xs : List (V × T)) :
    after held (x :: xs) = after (some (take held x)) xs := rfl

/-- Values that repeat the one in effect leave it as it is. -/
theorem after_of_same {h : V × T} {xs : List (V × T)} (hsame : ∀ x ∈ xs, x.1 = h.1) :
    after (some h) xs = some h := by
  induction xs with
  | nil => rfl
  | cons x xs ih =>
    have hx : h.1 = x.1 := (hsame x List.mem_cons_self).symm
    rw [after_cons, take, if_pos hx]
    exact ih fun y hy => hsame y (List.mem_cons_of_mem _ hy)

/-- What was in effect is forgotten once another value has followed. -/
theorem after_of_change {h h' : V × T} {xs : List (V × T)} (hfst : h.1 = h'.1)
    (hchange : ∃ x ∈ xs, x.1 ≠ h.1) : after (some h) xs = after (some h') xs := by
  induction xs generalizing h h' with
  | nil =>
    obtain ⟨x, hx, -⟩ := hchange
    cases hx
  | cons x xs ih =>
    rw [after_cons, after_cons, take, take]
    by_cases hx : h.1 = x.1
    · rw [if_pos hx, if_pos (hfst ▸ hx)]
      obtain ⟨y, hy, hne⟩ := hchange
      rcases List.mem_cons.mp hy with rfl | hy
      · exact absurd hx.symm hne
      · exact ih hfst ⟨y, hy, hne⟩
    · rw [if_neg hx, if_neg (hfst ▸ hx)]

/-- The last value is in effect. -/
theorem fst_after {h g : V × T} {xs : List (V × T)} (hafter : after (some h) xs = some g) :
    g.1 = (xs.getLast?.map Prod.fst).getD h.1 := by
  rcases List.eq_nil_or_concat xs with rfl | ⟨ys, y, rfl⟩
  · rw [Option.some.inj hafter]
    rfl
  · rw [List.concat_eq_append, after_concat, Option.some_inj] at hafter
    rw [← hafter, fst_take]
    simp

omit [DecidableEq V] in
/-- A run goes on. -/
theorem EndsInRun.concat {v : V} {t : T} {xs : List (V × T)} {x : V × T} (h : EndsInRun v t xs)
    (hx : x.1 = v) : EndsInRun v t (xs ++ [x]) := by
  obtain ⟨before, other, run, rfl, hother, hrun⟩ := h
  refine ⟨before, other, run ++ [x], by simp, hother, fun y hy => ?_⟩
  rcases List.mem_append.mp hy with hy | hy
  · exact hrun y hy
  · rw [List.mem_singleton.mp hy, hx]

/-- **What is in effect** after some values: what was, if they all repeat it; else their last value,
since the first of them that states it and none of another value after it; the first value of all
counts as one that another stands before where it differs from what was in effect. -/
theorem after_cases {h g : V × T} {xs : List (V × T)} (hafter : after (some h) xs = some g) :
    ((∀ x ∈ xs, x.1 = h.1) ∧ g = h) ∨
      (∃ run, xs = g :: run ∧ g.1 ≠ h.1 ∧ ∀ x ∈ run, x.1 = g.1) ∨ EndsInRun g.1 g.2 xs := by
  induction xs using List.reverseRecOn generalizing g with
  | nil => exact Or.inl ⟨fun _ hx => absurd hx List.not_mem_nil, (Option.some.inj hafter).symm⟩
  | append_singleton xs x ih =>
    rw [after_concat, Option.some_inj] at hafter
    cases hxs : after (some h) xs with
    | none =>
      exfalso
      rcases List.eq_nil_or_concat xs with rfl | ⟨ys, y, rfl⟩
      · cases hxs
      · rw [List.concat_eq_append, after_concat] at hxs
        cases hxs
    | some f =>
      rw [hxs, take] at hafter
      by_cases hx : f.1 = x.1
      · -- The run goes on.
        rw [if_pos hx] at hafter
        subst hafter
        rcases ih hxs with ⟨hall, rfl⟩ | ⟨run, rfl, hne, hrun⟩ | hends
        · refine Or.inl ⟨fun y hy => ?_, rfl⟩
          rcases List.mem_append.mp hy with hy | hy
          · exact hall y hy
          · rw [List.mem_singleton.mp hy, hx]
        · refine Or.inr (Or.inl ⟨run ++ [x], rfl, hne, fun y hy => ?_⟩)
          rcases List.mem_append.mp hy with hy | hy
          · exact hrun y hy
          · rw [List.mem_singleton.mp hy, hx]
        · exact Or.inr (Or.inr (hends.concat hx.symm))
      · -- Another run starts.
        rw [if_neg hx] at hafter
        subst hafter
        rcases List.eq_nil_or_concat xs with rfl | ⟨ys, y, rfl⟩
        · obtain rfl := Option.some.inj hxs
          exact Or.inr (Or.inl ⟨[], rfl, Ne.symm hx, fun _ h => absurd h List.not_mem_nil⟩)
        · rw [List.concat_eq_append] at hxs ⊢
          have hy : f.1 = y.1 := by
            rw [fst_after hxs]
            simp
          exact Or.inr (Or.inr ⟨ys, y, [], by simp, hy ▸ hx, fun _ h => absurd h List.not_mem_nil⟩)

/-- A sequence that ends in a run has its value in effect since it starts. -/
theorem after_of_endsInRun {h : V × T} {v : V} {t : T} {xs : List (V × T)}
    (hends : EndsInRun v t xs) : after (some h) xs = some (v, t) := by
  obtain ⟨before, other, run, rfl, hother, hrun⟩ := hends
  have hrest : other :: (v, t) :: run = [other] ++ (v, t) :: run := rfl
  rw [hrest, ← List.append_assoc, after_append, after_concat, after_cons, take]
  have hne : (take (after (some h) before) other).1 ≠ v := by
    rw [fst_take]
    exact hother
  rw [if_neg hne]
  exact after_of_same hrun

/-! ## Values before others -/

/-- Values that may stand before others after a value in effect: where the others all state one
value, either that is the value in effect, and the earlier ones all state it too or the run the
sequence ends in starts when it did; or it is another value, and the earlier ones do not end in
it. -/
def Unmoved (h : V × T) (earlier xs : List (V × T)) : Prop :=
  ∀ first rest, xs = first :: rest → (∀ x ∈ rest, x.1 = first.1) →
    (first.1 = h.1 → (∀ x ∈ earlier, x.1 = h.1) ∨ EndsInRun h.1 h.2 (earlier ++ xs)) ∧
    (first.1 ≠ h.1 → ∀ last, earlier.getLast? = some last → last.1 ≠ first.1)

omit [DecidableEq V] in
/-- A sequence of one value does not end in a run that another value stands before. -/
theorem not_endsInRun_of_same {v : V} {t : T} {xs : List (V × T)} (hall : ∀ x ∈ xs, x.1 = v) :
    ¬EndsInRun v t xs := by
  rintro ⟨before, other, run, rfl, hother, -⟩
  exact hother (hall other (List.mem_append_right _ List.mem_cons_self))

/-- **Values before others**, none of the time of the first of these, change nothing at the end
exactly when they may stand there. -/
theorem after_append_eq_iff {h : V × T} {earlier xs : List (V × T)}
    (htimes : ∀ x ∈ earlier, ∀ y ∈ xs.head?, x.2 ≠ y.2) (hne : xs ≠ []) :
    after (some h) (earlier ++ xs) = after (some h) xs ↔ Unmoved h earlier xs := by
  obtain ⟨first, rest, rfl⟩ := List.exists_cons_of_ne_nil hne
  obtain ⟨g, hg⟩ : ∃ g, after (some h) earlier = some g := by
    rcases List.eq_nil_or_concat earlier with rfl | ⟨ys, y, rfl⟩
    · exact ⟨h, rfl⟩
    · rw [List.concat_eq_append, after_concat]
      exact ⟨_, rfl⟩
  by_cases hsame : ∀ x ∈ rest, x.1 = first.1
  · have hend : ∀ f : V × T, after (some f) (first :: rest) = some (take (some f) first) := by
      intro f
      rw [after_cons]
      exact after_of_same fun x hx => by rw [fst_take, hsame x hx]
    have hwhole : after (some h) (earlier ++ first :: rest) = some (take (some g) first) := by
      rw [after_append, hg, hend]
    rw [hwhole, hend, Option.some_inj]
    by_cases hfirst : first.1 = h.1
    · have hright : take (some h) first = h := by rw [take, if_pos hfirst.symm]
      rw [hright]
      constructor
      · intro heq first' rest' hxs _
        obtain ⟨rfl, rfl⟩ := List.cons.inj hxs
        refine ⟨fun _ => ?_, fun hother => absurd hfirst hother⟩
        rw [heq] at hwhole
        rcases after_cases hwhole with ⟨hall, -⟩ | ⟨run, -, hdiffers, -⟩ | hends
        · exact Or.inl fun x hx => hall x (List.mem_append_left _ hx)
        · exact absurd rfl hdiffers
        · exact Or.inr hends
      · intro hunmoved
        rcases (hunmoved first rest rfl hsame).1 hfirst with hall | hends
        · rw [after_of_same hall, Option.some_inj] at hg
          rw [← hg, hright]
        · rw [after_of_endsInRun hends] at hwhole
          exact (Option.some.inj hwhole).symm
    · have hright : take (some h) first = first := by rw [take, if_neg (Ne.symm hfirst)]
      rw [hright]
      constructor
      · intro heq first' rest' hxs _
        obtain ⟨rfl, rfl⟩ := List.cons.inj hxs
        refine ⟨fun hother => absurd hother hfirst, fun _ last hlast hvalue => ?_⟩
        have hgvalue : g.1 = first.1 := by
          rw [fst_after hg, hlast, Option.map_some, Option.getD_some, hvalue]
        rw [take, if_pos hgvalue] at heq
        subst heq
        -- What is in effect since the first one's time was stated before it.
        rcases after_cases hg with ⟨-, rfl⟩ | ⟨run, rfl, -, -⟩ | ⟨before, other, run, rfl, -, -⟩
        · exact hfirst rfl
        · exact htimes g List.mem_cons_self g rfl rfl
        · exact htimes (g.1, g.2) (by simp) g rfl rfl
      · intro hunmoved
        have hother : g.1 ≠ first.1 := by
          rw [fst_after hg]
          cases hlast : earlier.getLast? with
          | none => exact Ne.symm hfirst
          | some last => exact (hunmoved first rest rfl hsame).2 hfirst last hlast
        rw [take, if_neg hother]
  · push Not at hsame
    have hleft : after (some h) (earlier ++ first :: rest) = after (some h) (first :: rest) := by
      rw [after_append, hg, after_cons, after_cons]
      refine after_of_change (by rw [fst_take, fst_take]) ?_
      obtain ⟨x, hx, hdiffers⟩ := hsame
      exact ⟨x, hx, by rw [fst_take]; exact hdiffers⟩
    refine ⟨fun _ first' rest' hxs hall => ?_, fun _ => hleft⟩
    obtain ⟨rfl, rfl⟩ := List.cons.inj hxs
    obtain ⟨x, hx, hdiffers⟩ := hsame
    exact absurd (hall x hx) hdiffers

end HeldSince

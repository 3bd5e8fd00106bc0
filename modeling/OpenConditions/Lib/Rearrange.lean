import Mathlib.Data.List.Perm.Basic
import Mathlib.Data.List.Forall2

set_option relaxedAutoImplicit false
set_option autoImplicit false

/-!
# Lists in another order

Two lists are alike up to order when the members of the one, in some order, are related to those of
the other one by one.

## Main definitions

* `Rearranged` — the lists are alike up to order.

## Main results

* `Rearranged.of_map`, `Rearranged.map_perm` — what some functions make of the members.
* `Rearranged.mapM` — and what partial functions make of them.
-/

/-- The members of a list, in some order, are related to those of another one by one. -/
def Rearranged {α β : Type*} (R : α → β → Prop) (l : List α) (l' : List β) : Prop :=
  ∃ m, l.Perm m ∧ List.Forall₂ R m l'

namespace Rearranged

variable {α β γ δ : Type*} {R S : α → β → Prop} {l : List α} {l' : List β}

/-- Members related otherwise too. -/
theorem imp (h : Rearranged R l l') (hRS : ∀ a ∈ l, ∀ b ∈ l', R a b → S a b) :
    Rearranged S l l' := by
  obtain ⟨m, hperm, hall⟩ := h
  have hmem : ∀ a ∈ m, a ∈ l := fun a ha => hperm.mem_iff.mpr ha
  refine ⟨m, hperm, ?_⟩
  clear hperm
  induction hall with
  | nil => exact .nil
  | @cons a b m l' hab _ ih =>
    refine .cons (hRS a (hmem a List.mem_cons_self) b List.mem_cons_self hab) (ih ?_ ?_)
    · exact fun x hx y hy => hRS x hx y (List.mem_cons_of_mem b hy)
    · exact fun x hx => hmem x (List.mem_cons_of_mem a hx)

/-- **Lists of which functions make the same members** are alike up to order. -/
theorem of_map {f : α → γ} {g : β → γ} (h : (l.map f).Perm (l'.map g)) :
    Rearranged (fun a b => f a = g b) l l' := by
  have hright : List.Forall₂ (fun b c => g b = c) l' (l'.map g) :=
    List.forall₂_map_right_iff.mpr (List.forall₂_same.mpr fun _ _ => rfl)
  have hleft : List.Forall₂ (fun c a => f a = c) (l.map f) l :=
    List.forall₂_map_left_iff.mpr (List.forall₂_same.mpr fun _ _ => rfl)
  obtain ⟨m, hm, hperm⟩ := List.perm_comp_forall₂ h.symm hleft
  refine ⟨m, hperm.symm, ?_⟩
  rw [List.forall₂_map_left_iff] at hm
  exact hm.flip

/-- **What functions make of lists that are alike up to order** are the same members. -/
theorem map_perm {f : α → γ} {g : β → γ} (h : Rearranged R l l')
    (hR : ∀ a ∈ l, ∀ b ∈ l', R a b → f a = g b) : (l.map f).Perm (l'.map g) := by
  obtain ⟨m, hperm, hall⟩ := h.imp hR
  refine (hperm.map f).trans (List.Perm.of_eq ?_)
  clear h hR hperm
  induction hall with
  | nil => rfl
  | cons hab _ ih => rw [List.map_cons, List.map_cons, hab, ih]

/-- A list is itself. -/
theorem refl {R : α → α → Prop} {l : List α} (h : ∀ a ∈ l, R a a) : Rearranged R l l :=
  ⟨l, List.Perm.refl l, List.forall₂_same.mpr h⟩

/-- Alike lists are as long. -/
theorem length_eq (h : Rearranged R l l') : l.length = l'.length := by
  obtain ⟨m, hperm, hall⟩ := h
  exact hperm.length_eq.trans hall.length_eq

/-- A list has results throughout exactly when they are these. -/
theorem mapM_eq_some_iff {f : α → Option γ} : ∀ {l : List α} {results : List γ},
    l.mapM f = some results ↔ l.map f = results.map some
  | [], results => by
    constructor
    · intro h
      obtain rfl : [] = results := Option.some.inj h
      rfl
    · intro h
      obtain rfl : results = [] := List.map_eq_nil_iff.mp h.symm
      rfl
  | a :: l, results => by
    rw [List.mapM_cons]
    simp only [Option.bind_eq_bind, Option.bind_eq_some_iff, List.map_cons]
    constructor
    · rintro ⟨c, hc, rest, hrest, heq⟩
      obtain rfl : c :: rest = results := Option.some.inj heq
      rw [List.map_cons, hc, Iff.mp mapM_eq_some_iff hrest]
    · intro h
      cases results with
      | nil => cases h
      | cons c rest =>
        rw [List.map_cons, List.cons.injEq] at h
        exact ⟨c, h.1, rest, Iff.mpr mapM_eq_some_iff h.2, rfl⟩

/-- A list has results throughout when each of its members has one. -/
theorem exists_mapM {f : α → Option γ} {l : List α} (h : ∀ a ∈ l, (f a).isSome = true) :
    ∃ results, l.mapM f = some results := by
  induction l with
  | nil => exact ⟨[], rfl⟩
  | cons a l ih =>
    obtain ⟨c, hc⟩ := Option.isSome_iff_exists.mp (h a List.mem_cons_self)
    obtain ⟨rest, hrest⟩ := ih fun b hb => h b (List.mem_cons_of_mem a hb)
    refine ⟨c :: rest, Iff.mpr mapM_eq_some_iff ?_⟩
    rw [List.map_cons, List.map_cons, hc, Iff.mp mapM_eq_some_iff hrest]

/-- The results of a list, and what a function makes of them. -/
theorem map_eq_of_mapM {f : α → Option γ} {p : γ → δ} {l : List α} {results : List γ}
    (h : l.mapM f = some results) : (l.map fun a => (f a).map p) = (results.map p).map some := by
  have hmap := congrArg (List.map (Option.map p)) (Iff.mp mapM_eq_some_iff h)
  rw [List.map_map, List.map_map] at hmap
  rw [List.map_map]
  exact hmap

/-- What a function makes of the results of a list. -/
theorem filterMap_eq_of_mapM {f : α → Option γ} {p : γ → δ} {l : List α} {results : List γ}
    (h : l.mapM f = some results) : (l.filterMap fun a => (f a).map p) = results.map p := by
  have hfilter := congrArg (List.filterMap id) (map_eq_of_mapM (p := p) h)
  rwa [List.filterMap_map, List.filterMap_map, Function.id_comp, Function.id_comp,
    List.filterMap_some] at hfilter

/-- A result of a list is that of a member. -/
theorem exists_of_mem_mapM {f : α → Option γ} {l : List α} {results : List γ}
    (h : l.mapM f = some results) {c : γ} (hc : c ∈ results) : ∃ a ∈ l, f a = some c := by
  have hmem : some c ∈ l.map f := Iff.mp mapM_eq_some_iff h ▸ List.mem_map_of_mem hc
  exact List.mem_map.mp hmem

/-- A list of which a member has no result has none. -/
theorem mapM_eq_none {f : α → Option γ} {l : List α} (h : ¬∀ a ∈ l, (f a).isSome = true) :
    l.mapM f = none := by
  refine Option.eq_none_iff_forall_ne_some.mpr fun results hresults => h fun a ha => ?_
  have hmem : f a ∈ results.map some := Iff.mp mapM_eq_some_iff hresults ▸ List.mem_map_of_mem ha
  obtain ⟨c, -, hc⟩ := List.mem_map.mp hmem
  rw [← hc]
  rfl

/-- **What partial functions make of lists that are alike up to order**: results of both, the same
members by two functions, or of neither. -/
theorem mapM {f : α → Option γ} {g : β → Option δ} {ε : Type*} {p : γ → ε} {q : δ → ε}
    (h : Rearranged R l l') (hR : ∀ a ∈ l, ∀ b ∈ l', R a b → (f a).map p = (g b).map q) :
    (l.mapM f = none ∧ l'.mapM g = none) ∨ ∃ results results', l.mapM f = some results ∧
      l'.mapM g = some results' ∧ (results.map p).Perm (results'.map q) := by
  have hperm := h.map_perm hR
  have hsome : (∀ a ∈ l, (f a).isSome = true) ↔ ∀ b ∈ l', (g b).isSome = true := by
    have hleft : (∀ a ∈ l, (f a).isSome = true) ↔
        ∀ c ∈ l.map fun a => (f a).map p, c.isSome = true := by simp
    have hright : (∀ b ∈ l', (g b).isSome = true) ↔
        ∀ c ∈ l'.map fun b => (g b).map q, c.isSome = true := by simp
    rw [hleft, hright]
    exact forall_congr' fun c => by rw [hperm.mem_iff]
  by_cases hall : ∀ a ∈ l, (f a).isSome = true
  · obtain ⟨results, hresults⟩ := exists_mapM hall
    obtain ⟨results', hresults'⟩ := exists_mapM (hsome.mp hall)
    refine Or.inr ⟨results, results', hresults, hresults', ?_⟩
    rw [map_eq_of_mapM hresults, map_eq_of_mapM hresults'] at hperm
    exact (List.map_perm_map_iff fun _ _ => Option.some.inj).mp hperm
  · exact Or.inl ⟨mapM_eq_none hall, mapM_eq_none fun hb => hall (hsome.mpr hb)⟩

/-- **Lists of whose results functions make the same members** are alike up to order. -/
theorem of_mapM {f : α → Option γ} {g : β → Option δ} {ε : Type*} {p : γ → ε} {q : δ → ε}
    {results : List γ} {results' : List δ} (h : l.mapM f = some results)
    (h' : l'.mapM g = some results') (hperm : (results.map p).Perm (results'.map q)) :
    Rearranged (fun a b => ∃ c d, f a = some c ∧ g b = some d ∧ p c = q d) l l' := by
  have hmaps : (l.map fun a => (f a).map p).Perm (l'.map fun b => (g b).map q) := by
    rw [map_eq_of_mapM h, map_eq_of_mapM h']
    exact hperm.map some
  refine (of_map hmaps).imp fun a ha b hb hab => ?_
  have hleft : f a ∈ results.map some := Iff.mp mapM_eq_some_iff h ▸ List.mem_map_of_mem ha
  have hright : g b ∈ results'.map some := Iff.mp mapM_eq_some_iff h' ▸ List.mem_map_of_mem hb
  obtain ⟨c, -, hc⟩ := List.mem_map.mp hleft
  obtain ⟨d, -, hd⟩ := List.mem_map.mp hright
  rw [← hc, ← hd] at hab
  exact ⟨c, d, hc.symm, hd.symm, Option.some.inj hab⟩

end Rearranged

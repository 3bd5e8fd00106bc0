import Mathlib.Data.List.Forall2
import Mathlib.Data.List.Sort
import Mathlib.Order.Lattice

set_option relaxedAutoImplicit false
set_option autoImplicit false

/-!
# Keyset pages

A page of a collection read in the order of a key: the rows past a position, those that are not
ready left out, up to a limit.  The position moves to the last row of the page.

## Main definitions

* `Keyset.page` — the rows of one page.
* `Keyset.frontier` — the position after it.

## Main results

* `Keyset.mem_page_of_le_frontier` — the page leaves out no ready row it has moved past.
* `Keyset.full_of_not_mem_page` — a ready row it leaves out stands behind a full page.
* `Keyset.page_rel` — related collections have related pages.
-/

namespace Keyset

variable {α K : Type*} [LinearOrder K] (key : α → K)

/-- The rows past `after`, of those that are ready, in the order of their keys. -/
def ahead (rows : List α) (ready : α → Bool) (after : K) : List α :=
  (rows.filter fun r => decide (after < key r) && ready r).insertionSort fun a b => key a ≤ key b

/-- The first `limit` of the rows past `after`. -/
def page (rows : List α) (ready : α → Bool) (after : K) (limit : ℕ) : List α :=
  (ahead key rows ready after).take limit

/-- The position after a page: its last row's, the old one when the page is empty. -/
def frontier (after : K) (items : List α) : K := (items.getLast?.map key).getD after

section Page

variable {key} {rows : List α} {ready : α → Bool} {after : K} {limit : ℕ} {r : α}

/-- The rows ahead are the ready ones past the position. -/
theorem mem_ahead : r ∈ ahead key rows ready after ↔ r ∈ rows ∧ after < key r ∧ ready r = true := by
  simp [ahead, List.mem_insertionSort]

/-- The rows of a page are ready and past the position. -/
theorem of_mem_page (h : r ∈ page key rows ready after limit) :
    r ∈ rows ∧ after < key r ∧ ready r = true :=
  Iff.mp mem_ahead (List.mem_of_mem_take h)

/-- A page is in the order of the keys. -/
theorem page_pairwise : (page key rows ready after limit).Pairwise fun a b => key a ≤ key b := by
  have : Std.Total (fun a b : α => key a ≤ key b) := ⟨fun a b => le_total (key a) (key b)⟩
  have : IsTrans α fun a b => key a ≤ key b := ⟨fun a b c => le_trans⟩
  exact (List.pairwise_insertionSort _ _).sublist (List.take_sublist limit _)

/-- A page of distinct rows with distinct keys is in the strict order of the keys. -/
theorem page_pairwise_lt (hkey : (rows.map key).Nodup) :
    (page key rows ready after limit).Pairwise fun a b => key a < key b := by
  have hahead : ((ahead key rows ready after).map key).Nodup := by
    refine ((List.perm_insertionSort _ _).map key).nodup_iff.mpr ?_
    exact hkey.sublist (List.filter_sublist.map key)
  have hnodup : ((page key rows ready after limit).map key).Nodup :=
    hahead.sublist ((List.take_sublist limit _).map key)
  have hne : (page key rows ready after limit).Pairwise fun a b => key a ≠ key b :=
    List.pairwise_map.mp hnodup
  exact (page_pairwise.and hne).imp fun h => lt_of_le_of_ne h.1 h.2

/-- The rows a sorted list begins with have keys up to its last one. -/
theorem le_frontier_of_mem {items : List α} (hsorted : items.Pairwise fun a b => key a ≤ key b)
    (h : r ∈ items) : key r ≤ frontier key after items := by
  obtain ⟨last, hlast⟩ : ∃ last, items.getLast? = some last :=
    ⟨_, List.getLast?_eq_some_getLast (List.ne_nil_of_mem h)⟩
  obtain ⟨init, rfl⟩ := List.getLast?_eq_some_iff.mp hlast
  rw [frontier, hlast]
  simp only [Option.map_some, Option.getD_some]
  rcases List.mem_append.mp h with hinit | hr
  · exact (List.pairwise_append.mp hsorted).2.2 r hinit last (List.mem_singleton_self _)
  · rw [List.mem_singleton.mp hr]

/-- A page moves the position forward. -/
theorem le_frontier_page : after ≤ frontier key after (page key rows ready after limit) := by
  unfold frontier
  cases hlast : (page key rows ready after limit).getLast? with
  | none => exact le_rfl
  | some last => exact (of_mem_page (List.mem_of_getLast? hlast)).2.1.le

/-- A ready row that a page leaves out stands behind a full page. -/
theorem full_of_not_mem_page (hr : r ∈ rows) (hafter : after < key r) (hready : ready r = true)
    (h : r ∉ page key rows ready after limit) :
    (page key rows ready after limit).length = limit ∧
      ∀ x ∈ page key rows ready after limit, key x ≤ key r := by
  have hmem : r ∈ ahead key rows ready after := Iff.mpr mem_ahead ⟨hr, hafter, hready⟩
  have hsorted : (ahead key rows ready after).Pairwise fun a b => key a ≤ key b := by
    have : Std.Total (fun a b : α => key a ≤ key b) := ⟨fun a b => le_total (key a) (key b)⟩
    have : IsTrans α fun a b => key a ≤ key b := ⟨fun a b c => le_trans⟩
    exact List.pairwise_insertionSort _ _
  rw [← List.take_append_drop limit (ahead key rows ready after)] at hmem hsorted
  rcases List.mem_append.mp hmem with htake | hdrop
  · exact absurd htake h
  · refine ⟨?_, fun x hx => (List.pairwise_append.mp hsorted).2.2 x hx r hdrop⟩
    have hlen := List.length_pos_of_mem hdrop
    rw [List.length_drop] at hlen
    unfold page
    rw [List.length_take]
    omega

/-- **No row is passed over.** A ready row between the position before a page and the one after
it is on the page. -/
theorem mem_page_of_le_frontier (hkey : (rows.map key).Nodup) (hr : r ∈ rows)
    (hafter : after < key r) (hready : ready r = true)
    (hle : key r ≤ frontier key after (page key rows ready after limit)) :
    r ∈ page key rows ready after limit := by
  by_contra h
  obtain ⟨-, hbefore⟩ := full_of_not_mem_page hr hafter hready h
  unfold frontier at hle
  cases hlast : (page key rows ready after limit).getLast? with
  | none =>
    rw [hlast] at hle
    exact absurd hle (not_le.mpr hafter)
  | some last =>
    rw [hlast] at hle
    have hmem := List.mem_of_getLast? hlast
    have heq : key last = key r := le_antisymm (hbefore last hmem) hle
    exact h (List.inj_on_of_nodup_map hkey (of_mem_page hmem).1 hr heq ▸ hmem)

end Page

/-! ## Related collections -/

section Related

variable {β : Type*} {key} {key' : β → K} {R : α → β → Prop} {rows : List α} {rows' : List β}

/-- A row set in its place keeps two lists related. -/
theorem forall₂_orderedInsert (hkey : ∀ a b, R a b → key a = key' b) {a : α} {b : β} (hab : R a b)
    (h : List.Forall₂ R rows rows') :
    List.Forall₂ R (rows.orderedInsert (fun x y => key x ≤ key y) a)
      (rows'.orderedInsert (fun x y => key' x ≤ key' y) b) := by
  induction h with
  | nil => exact .cons hab .nil
  | cons hrow hrest ih =>
    simp only [List.orderedInsert_cons, hkey _ _ hab, hkey _ _ hrow]
    split_ifs
    · exact .cons hab (.cons hrow hrest)
    · exact .cons hrow ih

/-- Two related lists stay so in the order of their keys. -/
theorem forall₂_insertionSort (hkey : ∀ a b, R a b → key a = key' b)
    (h : List.Forall₂ R rows rows') :
    List.Forall₂ R (rows.insertionSort fun x y => key x ≤ key y)
      (rows'.insertionSort fun x y => key' x ≤ key' y) := by
  induction h with
  | nil => exact .nil
  | cons hrow _ ih => exact forall₂_orderedInsert hkey hrow ih

/-- **Two related collections have related pages**, where related rows have one key and are ready
alike. -/
theorem page_rel (hkey : ∀ a b, R a b → key a = key' b) {ready : α → Bool} {ready' : β → Bool}
    (hready : ∀ a b, R a b → ready a = ready' b) (h : List.Forall₂ R rows rows') (after : K)
    (limit : ℕ) :
    List.Forall₂ R (page key rows ready after limit) (page key' rows' ready' after limit) := by
  refine List.forall₂_take _ (forall₂_insertionSort hkey (List.rel_filter ?_ h))
  intro a b hab
  simp only [hkey a b hab, hready a b hab]

end Related

end Keyset

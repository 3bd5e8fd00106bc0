import OpenConditions.Lib.CodeUnitText
import OpenConditions.Lib.OrderedMap
import Mathlib.Data.List.Dedup
import Mathlib.Data.List.Infix
import Mathlib.Data.Rat.Defs

set_option relaxedAutoImplicit false
set_option autoImplicit false

/-!
# Well-formed copies

A JSON value with the unpaired surrogates of its strings and keys replaced (`wellFormed` of
`packages/model/src/kernel/identity.ts`).  An array or object is copied when the first of its
members changes, and the copy is written to while the original is read; two keys may become one.

What a program holds stands at addresses, and a copy stands at the next one.  The recursion of the
source is bounded by a number, and enough of it gives the result.

## Main definitions

* `Held`, `Cell`, `Heap` — values, and what stands at their addresses.
* `wellFormed` — the value that a value is replaced by, with what the program then holds.
* `IsJson`, `IsClean` — JSON values, and those without unpaired surrogates.
* `Mirrors` — a value is another one member by member, keys that become one counted once.

## Main results

* `wellFormed_of_isClean` — a clean value is kept and nothing is copied.
* `visitMember_spec` — what one member does to the copy.
* `cleans_of_isJson` — a JSON value becomes a clean one that mirrors it.
* `wellFormed_spec` — all of this of one run, which writes to nothing it was given.
-/

namespace OpenConditions.Core

open Utf16 (isPaired replaceLone)

/-! ## Values and addresses -/

/-- A value as a program holds it: arrays and objects by their addresses. -/
inductive Held where
  | null
  | bool (b : Bool)
  | num (q : ℚ)
  | str (units : List UInt16)
  | ref (address : ℕ)
  deriving DecidableEq

/-- What stands at an address. -/
inductive Cell where
  | arr (items : List Held)
  /-- An object; `plain` when it has no prototype of its own. -/
  | obj (plain : Bool) (fields : OrderedMap (List UInt16) Held)

/-- What a program holds. -/
abbrev Heap := List Cell

/-- Writes an item of an array. -/
def Cell.setItem (i : ℕ) (item : Held) : Cell → Cell
  | .arr items => .arr (items.set i item)
  | cell => cell

/-- Defines a field of an object under its fixed key, in place of the key. -/
def Cell.defineField (key fixedKey : List UInt16) (fixed : Held) : Cell → Cell
  | .obj plain fields =>
    .obj plain ((if fixedKey ≠ key then fields.delete key else fields).set fixedKey fixed)
  | cell => cell

/-- The copy that is written to: the one made before, or a new one. -/
def copyOf (heap : Heap) (p : ℕ) : Option ℕ → Heap × ℕ
  | some copy => (heap, copy)
  | none => (heap ++ heap[p]?.toList, heap.length)

/-! ## The value without unpaired surrogates -/

/-- A string without unpaired surrogates. -/
def wellFormedString (units : List UInt16) : List UInt16 :=
  if isPaired units then units else replaceLone units

/-- What one member of an array or object does: a member that changes is written to the copy. -/
def visitMember (clean : Heap → Held → Option (Heap × Held)) (p : ℕ) (kept : Held → Prop)
    [DecidablePred kept] (write : Held → Cell → Cell) (item : Held) (state : Heap × Option ℕ) :
    Option (Heap × Option ℕ) :=
  (clean state.1 item).map fun r =>
    if kept r.2 then (r.1, state.2)
    else
      let c := copyOf r.1 p state.2
      (c.1.modify c.2 (write r.2), some c.2)

/-- One item of an array. -/
def visitItem (clean : Heap → Held → Option (Heap × Held)) (p : ℕ)
    (state : Heap × Option ℕ) (e : Held × ℕ) : Option (Heap × Option ℕ) :=
  visitMember clean p (fun item => item = e.1) (Cell.setItem e.2) e.1 state

/-- One field of an object. -/
def visitField (clean : Heap → Held → Option (Heap × Held)) (p : ℕ)
    (state : Heap × Option ℕ) (e : List UInt16 × Held) : Option (Heap × Option ℕ) :=
  visitMember clean p (fun fixed => wellFormedString e.1 = e.1 ∧ fixed = e.2)
    (Cell.defineField e.1 (wellFormedString e.1)) e.2 state

/-- The value that a value is replaced by, with what the program then holds. -/
def wellFormed : ℕ → Heap → Held → Option (Heap × Held)
  | 0, _, _ => none
  | fuel + 1, heap, value =>
    match value with
    | .str units => some (heap, .str (wellFormedString units))
    | .ref p =>
      match heap[p]? with
      | none => none
      | some (.arr items) =>
        (items.zipIdx.foldlM (visitItem (wellFormed fuel) p) (heap, none)).map fun out =>
          (out.1, .ref (out.2.getD p))
      | some (.obj false _) => some (heap, .ref p)
      | some (.obj true fields) =>
        (fields.entries.foldlM (visitField (wellFormed fuel) p) (heap, none)).map fun out =>
          (out.1, .ref (out.2.getD p))
    | value => some (heap, value)

/-! ## JSON values -/

/-- A value is a JSON value. -/
inductive IsJson (heap : Heap) : Held → Prop
  | null : IsJson heap .null
  | bool (b : Bool) : IsJson heap (.bool b)
  | num (q : ℚ) : IsJson heap (.num q)
  | str (units : List UInt16) : IsJson heap (.str units)
  | arr {p : ℕ} {items : List Held} (hget : heap[p]? = some (.arr items))
      (hitems : ∀ x ∈ items, IsJson heap x) : IsJson heap (.ref p)
  | obj {p : ℕ} {fields : OrderedMap (List UInt16) Held}
      (hget : heap[p]? = some (.obj true fields))
      (hfields : ∀ e ∈ fields.entries, IsJson heap e.2) : IsJson heap (.ref p)

/-- A JSON value has no unpaired surrogate in a string or key. -/
inductive IsClean (heap : Heap) : Held → Prop
  | null : IsClean heap .null
  | bool (b : Bool) : IsClean heap (.bool b)
  | num (q : ℚ) : IsClean heap (.num q)
  | str {units : List UInt16} (hunits : isPaired units = true) : IsClean heap (.str units)
  | arr {p : ℕ} {items : List Held} (hget : heap[p]? = some (.arr items))
      (hitems : ∀ x ∈ items, IsClean heap x) : IsClean heap (.ref p)
  | obj {p : ℕ} {fields : OrderedMap (List UInt16) Held}
      (hget : heap[p]? = some (.obj true fields))
      (hkeys : ∀ e ∈ fields.entries, isPaired e.1 = true)
      (hfields : ∀ e ∈ fields.entries, IsClean heap e.2) : IsClean heap (.ref p)

/-- A value is another one with its strings cleaned: an array has as many items, and an object one
member for each of the texts that its keys clean to, the member of such a key. -/
inductive Mirrors (heap heap' : Heap) : Held → Held → Prop
  | null : Mirrors heap heap' .null .null
  | bool (b : Bool) : Mirrors heap heap' (.bool b) (.bool b)
  | num (q : ℚ) : Mirrors heap heap' (.num q) (.num q)
  | str (units : List UInt16) : Mirrors heap heap' (.str units) (.str (wellFormedString units))
  | arr {p q : ℕ} {pairs : List (Held × Held)}
      (hget : heap[p]? = some (.arr (pairs.map Prod.fst)))
      (hget' : heap'[q]? = some (.arr (pairs.map Prod.snd)))
      (hitems : ∀ d ∈ pairs, Mirrors heap heap' d.1 d.2) : Mirrors heap heap' (.ref p) (.ref q)
  | obj {p q : ℕ} {fields fields' : OrderedMap (List UInt16) Held}
      {source : List UInt16 × Held → List UInt16 × Held}
      (hget : heap[p]? = some (.obj true fields))
      (hget' : heap'[q]? = some (.obj true fields'))
      (hkeys : fields'.keys.Perm (fields.keys.map wellFormedString).dedup)
      (hsource : ∀ e ∈ fields'.entries, source e ∈ fields.entries ∧
        wellFormedString (source e).1 = e.1)
      (hfields : ∀ e ∈ fields'.entries, Mirrors heap heap' (source e).2 e.2) :
      Mirrors heap heap' (.ref p) (.ref q)

/-! ## Strings -/

/-- A string is cleaned. -/
theorem isPaired_wellFormedString (units : List UInt16) :
    isPaired (wellFormedString units) = true := by
  unfold wellFormedString
  split_ifs with h
  · exact h
  · exact Utf16.isPaired_replaceLone units

/-- A string is kept exactly when it is clean. -/
theorem wellFormedString_eq_self_iff {units : List UInt16} :
    wellFormedString units = units ↔ isPaired units = true := by
  refine ⟨fun h => h ▸ isPaired_wellFormedString units, fun h => if_pos h⟩

/-! ## Clean values are kept -/

/-- Steps that all keep a state lead nowhere. -/
theorem foldlM_keep {S E : Type} {step : S → E → Option S} {s : S} {l : List E}
    (h : ∀ e ∈ l, step s e = some s) : l.foldlM step s = some s := by
  induction l with
  | nil => rfl
  | cons e l ih =>
    rw [List.foldlM_cons, h e List.mem_cons_self]
    exact ih fun e' he' => h e' (List.mem_cons_of_mem e he')

/-- What each member takes enough of, all of them do. -/
theorem exists_enough {E : Type} {P : ℕ → E → Prop} {l : List E}
    (h : ∀ e ∈ l, ∃ enough, ∀ fuel ≥ enough, P fuel e) :
    ∃ enough, ∀ fuel ≥ enough, ∀ e ∈ l, P fuel e := by
  induction l with
  | nil => exact ⟨0, fun _ _ e he => absurd he List.not_mem_nil⟩
  | cons e l ih =>
    obtain ⟨here, hhere⟩ := h e List.mem_cons_self
    obtain ⟨rest, hrest⟩ := ih fun e' he' => h e' (List.mem_cons_of_mem e he')
    refine ⟨max here rest, fun fuel hfuel => List.forall_mem_cons.mpr ⟨?_, ?_⟩⟩
    · exact hhere fuel (le_trans (le_max_left _ _) hfuel)
    · exact hrest fuel (le_trans (le_max_right _ _) hfuel)

/-- A member that is kept changes nothing. -/
theorem visitMember_keep {clean : Heap → Held → Option (Heap × Held)} {p : ℕ} {kept : Held → Prop}
    [DecidablePred kept] {write : Held → Cell → Cell} {item : Held} {state : Heap × Option ℕ}
    (hclean : clean state.1 item = some (state.1, item)) (hkept : kept item) :
    visitMember clean p kept write item state = some state := by
  rw [visitMember, hclean, Option.map_some, if_pos hkept]

/-- **A clean value is kept and nothing is copied.** -/
theorem wellFormed_of_isClean {heap : Heap} {v : Held} (h : IsClean heap v) :
    ∃ enough, ∀ fuel ≥ enough, wellFormed fuel heap v = some (heap, v) := by
  have hsucc : ∀ {fuel n : ℕ}, fuel ≥ n + 1 → ∃ fuel', fuel = fuel' + 1 ∧ fuel' ≥ n :=
    fun {fuel n} hfuel => ⟨fuel - 1, by omega, by omega⟩
  induction h with
  | null | bool | num =>
    refine ⟨1, fun fuel hfuel => ?_⟩
    obtain ⟨fuel, rfl, -⟩ := hsucc hfuel
    rfl
  | str hunits =>
    refine ⟨1, fun fuel hfuel => ?_⟩
    obtain ⟨fuel, rfl, -⟩ := hsucc hfuel
    rw [wellFormed, Iff.mpr wellFormedString_eq_self_iff hunits]
  | @arr p items hget _ ih =>
    obtain ⟨enough, henough⟩ := exists_enough ih
    refine ⟨enough + 1, fun fuel hfuel => ?_⟩
    obtain ⟨fuel, rfl, hmore⟩ := hsucc hfuel
    have hloop : items.zipIdx.foldlM (visitItem (wellFormed fuel) p) (heap, none) =
        some (heap, none) := foldlM_keep fun e he =>
      visitMember_keep (henough fuel hmore e.1 (List.fst_mem_of_mem_zipIdx he)) rfl
    rw [wellFormed]
    simp only [hget, hloop, Option.map_some, Option.getD_none]
  | @obj p fields hget hkeys _ ih =>
    obtain ⟨enough, henough⟩ := exists_enough ih
    refine ⟨enough + 1, fun fuel hfuel => ?_⟩
    obtain ⟨fuel, rfl, hmore⟩ := hsucc hfuel
    have hloop : fields.entries.foldlM (visitField (wellFormed fuel) p) (heap, none) =
        some (heap, none) := foldlM_keep fun e he =>
      visitMember_keep (henough fuel hmore e he)
        ⟨Iff.mpr wellFormedString_eq_self_iff (hkeys e he), rfl⟩
    rw [wellFormed]
    simp only [hget, hloop, Option.map_some, Option.getD_none]

/-! ## More fuel -/

/-- A loop that has a result has it with steps that have results of it. -/
theorem foldlM_mono {S E : Type} {step more : S → E → Option S}
    (h : ∀ s e r, step s e = some r → more s e = some r) {l : List E} {s r : S}
    (hl : l.foldlM step s = some r) : l.foldlM more s = some r := by
  induction l generalizing s with
  | nil => exact hl
  | cons e l ih =>
    rw [List.foldlM_cons] at hl ⊢
    obtain ⟨s', hs', hrest⟩ := Option.bind_eq_some_iff.mp hl
    rw [h s e s' hs']
    exact ih hrest

/-- A member that has a result has it with more fuel. -/
theorem visitMember_mono {clean more : Heap → Held → Option (Heap × Held)}
    (h : ∀ heap v r, clean heap v = some r → more heap v = some r) {p : ℕ} {kept : Held → Prop}
    [DecidablePred kept] {write : Held → Cell → Cell} {item : Held} {state r : Heap × Option ℕ}
    (hr : visitMember clean p kept write item state = some r) :
    visitMember more p kept write item state = some r := by
  obtain ⟨w, hw, rfl⟩ := Option.map_eq_some_iff.mp hr
  rw [visitMember, h _ _ _ hw, Option.map_some]

/-- A result stays the same with more fuel. -/
theorem wellFormed_succ {fuel : ℕ} {heap : Heap} {v : Held} {r : Heap × Held}
    (h : wellFormed fuel heap v = some r) : wellFormed (fuel + 1) heap v = some r := by
  induction fuel generalizing heap v r with
  | zero => cases h
  | succ fuel ih =>
    have hmono : ∀ heap v r, wellFormed fuel heap v = some r →
        wellFormed (fuel + 1) heap v = some r := fun heap v r => ih
    cases v with
    | null | bool | num | str => exact h
    | ref p =>
      rw [wellFormed] at h ⊢
      cases hget : heap[p]? with
      | none =>
        rw [hget] at h
        cases h
      | some cell =>
        rw [hget] at h
        cases cell with
        | arr items =>
          obtain ⟨out, hout, rfl⟩ := Option.map_eq_some_iff.mp h
          exact Option.map_eq_some_iff.mpr
            ⟨out, foldlM_mono (fun s e r => visitMember_mono hmono) hout, rfl⟩
        | obj plain fields =>
          cases plain with
          | false => exact h
          | true =>
            obtain ⟨out, hout, rfl⟩ := Option.map_eq_some_iff.mp h
            exact Option.map_eq_some_iff.mpr
              ⟨out, foldlM_mono (fun s e r => visitMember_mono hmono) hout, rfl⟩

/-- A result stays the same with any more fuel. -/
theorem wellFormed_of_le {fuel more : ℕ} (hle : fuel ≤ more) {heap : Heap} {v : Held}
    {r : Heap × Held} (h : wellFormed fuel heap v = some r) :
    wellFormed more heap v = some r := by
  induction more, hle using Nat.le_induction with
  | base => exact h
  | succ more _ ih => exact wellFormed_succ ih

/-! ## What one member does -/

/-- A value is cleaned to another one: the two stay so whatever is written elsewhere than at the
addresses first there, or made since but for one. -/
def Settled (first : Heap) (lo : ℕ) (state : Heap × Option ℕ) (v w : Held) : Prop :=
  ∀ heap' : Heap, (∀ a, a < first.length ∨ lo ≤ a ∧ a < state.1.length → state.2 ≠ some a →
    heap'[a]? = state.1[a]?) → IsClean heap' w ∧ Mirrors first heap' v w

/-- A value is cleaned in whatever is made after what was there first. -/
def Cleans (clean : Heap → Held → Option (Heap × Held)) (first : Heap) (v : Held) : Prop :=
  ∀ heap, first <+: heap → ∃ heap' w, clean heap v = some (heap', w) ∧ heap <+: heap' ∧
    Settled first heap.length (heap', none) v w

/-- What is known while the members of an array or object are visited, of the cell that is to be its
copy and of the members done. -/
structure Visiting (first start : Heap) (p : ℕ) (state : Heap × Option ℕ) (cell : Cell)
    (done : List (Held × Held)) : Prop where
  /-- Nothing that was there is written to. -/
  grown : start <+: state.1
  /-- The copy was not there. -/
  fresh : ∀ a, state.2 = some a → start.length ≤ a
  holds : state.1[state.2.getD p]? = some cell
  settled : ∀ d ∈ done, Settled first start.length state d.1 d.2

/-- Values stay settled in what agrees where they stand. -/
theorem Settled.mono {first : Heap} {lo lo' : ℕ} {state state' : Heap × Option ℕ} {v w : Held}
    (h : Settled first lo state v w)
    (hagree : ∀ a, a < first.length ∨ lo ≤ a ∧ a < state.1.length → state.2 ≠ some a →
      (a < first.length ∨ lo' ≤ a ∧ a < state'.1.length) ∧ state'.2 ≠ some a ∧
        state'.1[a]? = state.1[a]?) : Settled first lo' state' v w := by
  refine fun heap' hheap' => h heap' fun a ha hne => ?_
  obtain ⟨hin, hout, hsame⟩ := hagree a ha hne
  rw [hheap' a hin hout, hsame]

/-- An address of what was there holds the same later. -/
theorem getElem?_later {heap heap' : Heap} (h : heap <+: heap') {a : ℕ}
    (ha : a < heap.length) : heap'[a]? = heap[a]? := by
  obtain ⟨added, rfl⟩ := h
  exact List.getElem?_append_left ha

/-- The copy is written to, and it alone. -/
theorem Visiting.write {first start : Heap} {p : ℕ} {heap : Heap} {out : Option ℕ} {cell : Cell}
    {done : List (Held × Held)} (hfirst : first <+: start)
    (h : Visiting first start p (heap, out) cell done) (f : Cell → Cell) :
    Visiting first start p
      ((copyOf heap p out).1.modify (copyOf heap p out).2 f, some (copyOf heap p out).2)
      (f cell) done := by
  have hlefirst := hfirst.length_le
  have hlestart : start.length ≤ heap.length := h.grown.length_le
  cases out with
  | none =>
    have hget : heap[p]? = some cell := h.holds
    have hmodify : (copyOf heap p none).1.modify (copyOf heap p none).2 f = heap ++ [f cell] := by
      rw [copyOf, hget, Option.toList_some, List.modify_eq_take_drop, List.take_left,
        List.drop_left]
      rfl
    rw [hmodify]
    refine ⟨h.grown.trans (List.prefix_append heap _), ?_, ?_, fun d hd => ?_⟩
    · rintro a ⟨⟩
      exact hlestart
    · exact List.getElem?_concat_length
    · refine (h.settled d hd).mono fun a ha _ => ?_
      have hlt : a < heap.length := by
        rcases ha with ha | ha
        · omega
        · exact ha.2
      refine ⟨?_, ?_, List.getElem?_append_left hlt⟩
      · refine ha.imp_right fun ha => ⟨ha.1, ?_⟩
        rw [List.length_append]
        exact Nat.lt_add_right _ hlt
      · rintro ⟨⟩
        exact lt_irrefl _ hlt
  | some copy =>
    have hfresh : start.length ≤ copy := h.fresh copy rfl
    refine ⟨?_, h.fresh, ?_, fun d hd => ?_⟩
    · refine List.prefix_iff_getElem?.mpr fun i hi => ?_
      rw [copyOf, List.getElem?_modify_ne _ _ (by omega)]
      exact List.prefix_iff_getElem?.mp h.grown i hi
    · exact (List.getElem?_modify_eq _ _ _).trans (congrArg (Option.map f) h.holds)
    · refine (h.settled d hd).mono fun a ha hne => ⟨?_, hne, ?_⟩
      · rw [copyOf, List.length_modify]
        exact ha
      · exact List.getElem?_modify_ne _ _ fun heq => hne (congrArg some heq)

/-- **What one member does**: it is cleaned, and written to the copy when it changes. -/
theorem visitMember_spec {clean : Heap → Held → Option (Heap × Held)} {first start : Heap} {p : ℕ}
    {kept : Held → Prop} [DecidablePred kept] {write : Held → Cell → Cell} {item : Held}
    {state : Heap × Option ℕ} {cell : Cell} {done : List (Held × Held)} (hfirst : first <+: start)
    (hclean : Cleans clean first item) (h : Visiting first start p state cell done) :
    ∃ state' w, visitMember clean p kept write item state = some state' ∧
      Visiting first start p state' (if kept w then cell else write w cell)
        (done ++ [(item, w)]) := by
  obtain ⟨heap, w, hw, hgrow, hsettled⟩ := hclean state.1 (hfirst.trans h.grown)
  have hlefirst := hfirst.length_le
  have hlestart : start.length ≤ state.1.length := h.grown.length_le
  have hlegrow : state.1.length ≤ heap.length := hgrow.length_le
  have hcopy : state.2.getD p < state.1.length := (List.getElem?_eq_some_iff.mp h.holds).1
  have hcleaned : Visiting first start p (heap, state.2) cell (done ++ [(item, w)]) := by
    refine ⟨h.grown.trans hgrow, h.fresh, ?_, fun d hd => ?_⟩
    · exact (getElem?_later hgrow hcopy).trans h.holds
    · rcases List.mem_append.mp hd with hd | hd
      · refine (h.settled d hd).mono fun a ha hne => ⟨?_, hne, getElem?_later hgrow ?_⟩
        · exact ha.imp_right fun ha => ⟨ha.1, by dsimp only; omega⟩
        · omega
      · obtain rfl := List.mem_singleton.mp hd
        refine hsettled.mono fun a ha _ => ⟨?_, fun hout => ?_, rfl⟩
        · exact ha.imp_right fun ha => ⟨by omega, ha.2⟩
        · have hfresh := h.fresh a hout
          rw [show state.2 = some a from hout, Option.getD_some] at hcopy
          omega
  rw [visitMember, hw, Option.map_some]
  dsimp only
  by_cases hkept : kept w
  · exact ⟨_, w, by rw [if_pos hkept], by rwa [if_pos hkept]⟩
  · exact ⟨_, w, by rw [if_neg hkept], by rw [if_neg hkept]; exact hcleaned.write hfirst _⟩

/-- What the members done make of the copy, or of what was not copied. -/
theorem Visiting.settled_ref {first start : Heap} {p : ℕ} {heap : Heap} {out : Option ℕ}
    {cell : Cell} {done : List (Held × Held)} (hp : p < first.length)
    (h : Visiting first start p (heap, out) cell done) {heap' : Heap}
    (hheap' : ∀ a, a < first.length ∨ start.length ≤ a ∧ a < heap.length →
      heap'[a]? = heap[a]?) :
    heap'[out.getD p]? = some cell ∧
      ∀ d ∈ done, IsClean heap' d.2 ∧ Mirrors first heap' d.1 d.2 := by
  refine ⟨?_, fun d hd => h.settled d hd heap' fun a ha _ => hheap' a ha⟩
  have hlt : out.getD p < heap.length := (List.getElem?_eq_some_iff.mp h.holds).1
  rw [hheap' _ ?_]
  · exact h.holds
  · cases out with
    | none => exact Or.inl hp
    | some copy => exact Or.inr ⟨h.fresh copy rfl, hlt⟩

/-! ## Arrays -/

/-- **The items of an array** are cleaned one by one. -/
theorem foldlM_visitItem {clean : Heap → Held → Option (Heap × Held)} {first start : Heap} {p : ℕ}
    (hfirst : first <+: start) :
    ∀ (rest : List Held) (done : List (Held × Held)) (state : Heap × Option ℕ),
      (∀ x ∈ rest, Cleans clean first x) →
      Visiting first start p state (.arr (done.map Prod.snd ++ rest)) done →
      ∃ state' done', (rest.zipIdx done.length).foldlM (visitItem clean p) state = some state' ∧
        Visiting first start p state' (.arr (done'.map Prod.snd)) done' ∧
        done'.map Prod.fst = done.map Prod.fst ++ rest := by
  intro rest
  induction rest with
  | nil =>
    intro done state _ h
    rw [List.append_nil] at h
    exact ⟨state, done, rfl, h, (List.append_nil _).symm⟩
  | cons item rest ih =>
    intro done state hclean h
    obtain ⟨hitem, hrest⟩ := List.forall_mem_cons.mp hclean
    obtain ⟨state₁, w, hvisit, hnext⟩ := @visitMember_spec clean first start p (fun v => v = item) _
      (Cell.setItem done.length) item state _ done hfirst hitem h
    have hcell : (if w = item then Cell.arr (done.map Prod.snd ++ item :: rest)
        else Cell.setItem done.length w (.arr (done.map Prod.snd ++ item :: rest))) =
        .arr ((done ++ [(item, w)]).map Prod.snd ++ rest) := by
      rw [List.map_append, List.append_assoc]
      split_ifs with hkept
      · rw [hkept]
        rfl
      · rw [Cell.setItem, List.set_append_right _ _ (by rw [List.length_map]), List.length_map,
          Nat.sub_self]
        rfl
    rw [hcell] at hnext
    obtain ⟨state', done', hloop, hdone, hfst⟩ := ih (done ++ [(item, w)]) state₁ hrest hnext
    refine ⟨state', done', ?_, hdone, ?_⟩
    · rw [List.zipIdx_cons, List.foldlM_cons]
      rw [List.length_append, List.length_singleton] at hloop
      exact Option.bind_eq_some_iff.mpr ⟨state₁, hvisit, hloop⟩
    · rw [hfst, List.map_append, List.append_assoc]
      rfl

/-! ## Objects -/

/-- The fields of the copy while the fields of an object are visited: one for the text of each key
done and one for each key left. -/
structure FieldsVisited (fields : OrderedMap (List UInt16) Held)
    (done : List ((List UInt16 × Held) × Held)) (rest : List (List UInt16 × Held)) : Prop where
  sources : ∀ e ∈ fields.entries,
    e ∈ rest ∨ ∃ d ∈ done, wellFormedString d.1.1 = e.1 ∧ d.2 = e.2
  doneKeys : ∀ d ∈ done, wellFormedString d.1.1 ∈ fields.keys
  restKeys : ∀ e ∈ rest, e.1 ∈ fields.keys

/-- A field that is defined under its fixed key, and the others. -/
theorem mem_entries_defineField {fields : OrderedMap (List UInt16) Held}
    {key fixedKey : List UInt16} {fixed : Held} {e : List UInt16 × Held}
    (he : e ∈ ((if fixedKey ≠ key then fields.delete key else fields).set fixedKey fixed).entries) :
    e = (fixedKey, fixed) ∨ e ∈ fields.entries ∧ e.1 ≠ fixedKey ∧ e.1 ≠ key := by
  obtain ⟨k, v⟩ := e
  rw [← OrderedMap.get_eq_some_iff, OrderedMap.get_set] at he
  split_ifs at he with hk hkey
  · rw [hk, ← Option.some.inj he]
    exact Or.inl rfl
  · rw [OrderedMap.get_delete] at he
    split_ifs at he with hdeleted
    exact Or.inr ⟨(OrderedMap.get_eq_some_iff _).mp he, hk, hdeleted⟩
  · rw [not_not] at hkey
    exact Or.inr ⟨(OrderedMap.get_eq_some_iff _).mp he, hk, hkey ▸ hk⟩

/-- The keys after a field is defined under its fixed key. -/
theorem mem_keys_defineField {fields : OrderedMap (List UInt16) Held} {key fixedKey : List UInt16}
    {fixed : Held} {x : List UInt16} (hx : x = fixedKey ∨ x ∈ fields.keys ∧ x ≠ key) :
    x ∈ ((if fixedKey ≠ key then fields.delete key else fields).set fixedKey fixed).keys := by
  refine (OrderedMap.mem_keys_setEntries fixedKey fixed x _).mpr (hx.imp_right fun hx => ?_)
  split_ifs with hkey
  · obtain ⟨e, he, rfl⟩ := List.mem_map.mp hx.1
    exact List.mem_map_of_mem (List.mem_filter.mpr ⟨he, decide_eq_true hx.2⟩)
  · exact hx.1

/-- A field that is kept. -/
theorem FieldsVisited.keep {fields : OrderedMap (List UInt16) Held}
    {done : List ((List UInt16 × Held) × Held)} {e : List UInt16 × Held}
    {rest : List (List UInt16 × Held)} (h : FieldsVisited fields done (e :: rest))
    (hkey : wellFormedString e.1 = e.1) : FieldsVisited fields (done ++ [(e, e.2)]) rest := by
  refine ⟨fun x hx => ?_, fun d hd => ?_, fun x hx => h.restKeys x (List.mem_cons_of_mem e hx)⟩
  · rcases h.sources x hx with hx | ⟨d, hd, hsource⟩
    · rcases List.mem_cons.mp hx with rfl | hx
      · exact Or.inr ⟨(x, x.2), by simp, hkey, rfl⟩
      · exact Or.inl hx
    · exact Or.inr ⟨d, List.mem_append_left _ hd, hsource⟩
  · rcases List.mem_append.mp hd with hd | hd
    · exact h.doneKeys d hd
    · obtain rfl := List.mem_singleton.mp hd
      exact hkey.symm ▸ h.restKeys e List.mem_cons_self

/-- A field that changes: its key is deleted unless it is clean, and no other field's text is such
a key. -/
theorem FieldsVisited.define {fields : OrderedMap (List UInt16) Held}
    {done : List ((List UInt16 × Held) × Held)} {e : List UInt16 × Held}
    {rest : List (List UInt16 × Held)} (h : FieldsVisited fields done (e :: rest))
    (hne : ∀ x ∈ rest, x.1 ≠ e.1) (w : Held) :
    FieldsVisited ((if wellFormedString e.1 ≠ e.1 then fields.delete e.1 else fields).set
      (wellFormedString e.1) w) (done ++ [(e, w)]) rest := by
  refine ⟨fun x hx => ?_, fun d hd => ?_, fun x hx => ?_⟩
  · rcases mem_entries_defineField hx with rfl | ⟨hx, -, hkey⟩
    · exact Or.inr ⟨(e, w), by simp, rfl, rfl⟩
    · rcases h.sources x hx with hx | ⟨d, hd, hsource⟩
      · rcases List.mem_cons.mp hx with rfl | hx
        · exact absurd rfl hkey
        · exact Or.inl hx
      · exact Or.inr ⟨d, List.mem_append_left _ hd, hsource⟩
  · rcases List.mem_append.mp hd with hd | hd
    · refine mem_keys_defineField ?_
      by_cases hkey : wellFormedString d.1.1 = e.1
      · refine Or.inl ?_
        rw [← hkey]
        exact (Iff.mpr wellFormedString_eq_self_iff (isPaired_wellFormedString d.1.1)).symm
      · exact Or.inr ⟨h.doneKeys d hd, hkey⟩
    · obtain rfl := List.mem_singleton.mp hd
      exact mem_keys_defineField (Or.inl rfl)
  · exact mem_keys_defineField
      (Or.inr ⟨h.restKeys x (List.mem_cons_of_mem e hx), hne x hx⟩)

/-- **The fields of an object** are cleaned one by one. -/
theorem foldlM_visitField {clean : Heap → Held → Option (Heap × Held)} {first start : Heap} {p : ℕ}
    (hfirst : first <+: start) :
    ∀ (rest : List (List UInt16 × Held)) (done : List ((List UInt16 × Held) × Held))
      (state : Heap × Option ℕ) (fields : OrderedMap (List UInt16) Held),
      (rest.map Prod.fst).Nodup → (∀ e ∈ rest, Cleans clean first e.2) →
      Visiting first start p state (.obj true fields) (done.map fun d => (d.1.2, d.2)) →
      FieldsVisited fields done rest →
      ∃ state' done' fields', rest.foldlM (visitField clean p) state = some state' ∧
        Visiting first start p state' (.obj true fields') (done'.map fun d => (d.1.2, d.2)) ∧
        FieldsVisited fields' done' [] ∧ done'.map Prod.fst = done.map Prod.fst ++ rest := by
  intro rest
  induction rest with
  | nil =>
    intro done state fields _ _ h hfields
    exact ⟨state, done, fields, rfl, h, hfields, (List.append_nil _).symm⟩
  | cons e rest ih =>
    intro done state fields hnodup hclean h hfields
    obtain ⟨hfield, hrest⟩ := List.forall_mem_cons.mp hclean
    rw [List.map_cons, List.nodup_cons] at hnodup
    obtain ⟨state₁, w, hvisit, hnext⟩ := @visitMember_spec clean first start p
      (fun fixed => wellFormedString e.1 = e.1 ∧ fixed = e.2) _
      (Cell.defineField e.1 (wellFormedString e.1)) e.2 state _ _ hfirst hfield h
    have hdone : done.map (fun d => (d.1.2, d.2)) ++ [(e.2, w)] =
        (done ++ [(e, w)]).map fun d => (d.1.2, d.2) := by
      rw [List.map_append]
      rfl
    rw [hdone] at hnext
    have hstep : ∃ fields₁, Visiting first start p state₁ (.obj true fields₁)
        ((done ++ [(e, w)]).map fun d => (d.1.2, d.2)) ∧
          FieldsVisited fields₁ (done ++ [(e, w)]) rest := by
      split_ifs at hnext with hkept
      · obtain ⟨hkey, rfl⟩ := hkept
        exact ⟨fields, hnext, hfields.keep hkey⟩
      · refine ⟨_, hnext, hfields.define (fun x hx heq => hnodup.1 ?_) w⟩
        exact heq ▸ List.mem_map_of_mem hx
    obtain ⟨fields₁, hvisiting, hvisited⟩ := hstep
    obtain ⟨state', done', fields', hloop, hend, hall, hfst⟩ :=
      ih (done ++ [(e, w)]) state₁ fields₁ hnodup.2 hrest hvisiting hvisited
    refine ⟨state', done', fields', ?_, hend, hall, ?_⟩
    · rw [List.foldlM_cons]
      exact Option.bind_eq_some_iff.mpr ⟨state₁, hvisit, hloop⟩
    · rw [hfst, List.map_append, List.append_assoc]
      rfl

/-! ## Whole values -/

/-- What is a JSON value first is one later. -/
theorem IsJson.mono {heap heap' : Heap} (h : heap <+: heap') {v : Held} (hv : IsJson heap v) :
    IsJson heap' v := by
  have hlater : ∀ {p : ℕ} {cell : Cell}, heap[p]? = some cell → heap'[p]? = some cell :=
    fun hget => (getElem?_later h (List.getElem?_eq_some_iff.mp hget).1).trans hget
  induction hv with
  | null => exact .null
  | bool b => exact .bool b
  | num q => exact .num q
  | str units => exact .str units
  | arr hget _ ih => exact .arr (hlater hget) ih
  | obj hget _ ih => exact .obj (hlater hget) ih

/-- A value that is neither array nor object is cleaned at once. -/
theorem cleans_of_eq {clean : Heap → Held → Option (Heap × Held)} {first : Heap} {v w : Held}
    (hclean : ∀ heap, clean heap v = some (heap, w))
    (hw : ∀ heap', IsClean heap' w ∧ Mirrors first heap' v w) : Cleans clean first v :=
  fun heap _ => ⟨heap, w, hclean heap, List.prefix_refl heap, fun heap' _ => hw heap'⟩

/-- An array whose items are cleaned is. -/
theorem cleans_arr {fuel : ℕ} {first : Heap} {p : ℕ} {items : List Held}
    (hget : first[p]? = some (.arr items))
    (hitems : ∀ x ∈ items, Cleans (wellFormed fuel) first x) :
    Cleans (wellFormed (fuel + 1)) first (.ref p) := by
  intro start hfirst
  have hp : p < first.length := (List.getElem?_eq_some_iff.mp hget).1
  have hstart : start[p]? = some (.arr items) := (getElem?_later hfirst hp).trans hget
  have hbegin : Visiting first start p (start, none) (.arr items) [] :=
    ⟨List.prefix_refl start, fun a ha => (by cases ha), hstart, fun d hd => (by cases hd)⟩
  obtain ⟨⟨heap, out⟩, done, hloop, hend, hfst⟩ :=
    foldlM_visitItem hfirst items [] (start, none) hitems hbegin
  rw [List.map_nil, List.nil_append] at hfst
  refine ⟨heap, .ref (out.getD p), ?_, hend.grown, fun heap' hagree => ?_⟩
  · rw [List.length_nil] at hloop
    rw [wellFormed]
    simp only [hstart, hloop, Option.map_some]
  · obtain ⟨hcopy, hdone⟩ := hend.settled_ref hp fun a ha => hagree a ha (by simp)
    refine ⟨.arr hcopy fun x hx => ?_, .arr ?_ hcopy fun d hd => (hdone d hd).2⟩
    · obtain ⟨d, hd, rfl⟩ := List.mem_map.mp hx
      exact (hdone d hd).1
    · rw [hfst, hget]

/-- The object of the fields done mirrors the one they are of. -/
theorem Mirrors.of_fieldsVisited {heap heap' : Heap} {p q : ℕ}
    {fields fields' : OrderedMap (List UInt16) Held}
    {done : List ((List UInt16 × Held) × Held)} (hget : heap[p]? = some (.obj true fields))
    (hget' : heap'[q]? = some (.obj true fields')) (h : FieldsVisited fields' done [])
    (hfst : done.map Prod.fst = fields.entries)
    (hdone : ∀ d ∈ done, Mirrors heap heap' d.1.2 d.2) : Mirrors heap heap' (.ref p) (.ref q) := by
  have hmem : ∀ d ∈ done, d.1 ∈ fields.entries := fun d hd => hfst ▸ List.mem_map_of_mem hd
  have hsource : ∀ e, ∃ s, e ∈ fields'.entries → s ∈ fields.entries ∧
      wellFormedString s.1 = e.1 ∧ Mirrors heap heap' s.2 e.2 := by
    intro e
    by_cases he : e ∈ fields'.entries
    · obtain ⟨d, hd, hkey, hvalue⟩ := (h.sources e he).resolve_left List.not_mem_nil
      exact ⟨d.1, fun _ => ⟨hmem d hd, hkey, hvalue ▸ hdone d hd⟩⟩
    · exact ⟨e, fun he' => absurd he' he⟩
  choose source hsource using hsource
  refine .obj hget hget' ?_ (fun e he => ⟨(hsource e he).1, (hsource e he).2.1⟩)
    fun e he => (hsource e he).2.2
  refine (List.perm_ext_iff_of_nodup fields'.nodup (List.nodup_dedup _)).mpr fun x => ?_
  rw [List.mem_dedup]
  constructor
  · intro hx
    obtain ⟨e, he, rfl⟩ := List.mem_map.mp hx
    obtain ⟨hs, hkey, -⟩ := hsource e he
    rw [← hkey]
    exact List.mem_map_of_mem (List.mem_map_of_mem hs)
  · intro hx
    obtain ⟨key, hkey, rfl⟩ := List.mem_map.mp hx
    obtain ⟨e, he, rfl⟩ := List.mem_map.mp hkey
    rw [← hfst] at he
    obtain ⟨d, hd, rfl⟩ := List.mem_map.mp he
    exact h.doneKeys d hd

/-- An object whose fields are cleaned is. -/
theorem cleans_obj {fuel : ℕ} {first : Heap} {p : ℕ} {fields : OrderedMap (List UInt16) Held}
    (hget : first[p]? = some (.obj true fields))
    (hfields : ∀ e ∈ fields.entries, Cleans (wellFormed fuel) first e.2) :
    Cleans (wellFormed (fuel + 1)) first (.ref p) := by
  intro start hfirst
  have hp : p < first.length := (List.getElem?_eq_some_iff.mp hget).1
  have hstart : start[p]? = some (.obj true fields) :=
    (getElem?_later hfirst hp).trans hget
  have hbegin : Visiting first start p (start, none) (.obj true fields) [] :=
    ⟨List.prefix_refl start, fun a ha => (by cases ha), hstart, fun d hd => (by cases hd)⟩
  have hnone : FieldsVisited fields [] fields.entries :=
    ⟨fun e he => Or.inl he, fun d hd => (by cases hd), fun e he => List.mem_map_of_mem he⟩
  obtain ⟨⟨heap, out⟩, done, fields', hloop, hend, hvisited, hfst⟩ :=
    foldlM_visitField hfirst fields.entries [] (start, none) fields fields.nodup hfields hbegin
      hnone
  rw [List.map_nil, List.nil_append] at hfst
  refine ⟨heap, .ref (out.getD p), ?_, hend.grown, fun heap' hagree => ?_⟩
  · rw [wellFormed]
    simp only [hstart, hloop, Option.map_some]
  · obtain ⟨hcopy, hall⟩ := hend.settled_ref hp fun a ha => hagree a ha (by simp)
    have hdone : ∀ d ∈ done, IsClean heap' d.2 ∧ Mirrors first heap' d.1.2 d.2 := fun d hd =>
      hall (d.1.2, d.2) (List.mem_map.mpr ⟨d, hd, rfl⟩)
    have hsource : ∀ e ∈ fields'.entries, ∃ d ∈ done, wellFormedString d.1.1 = e.1 ∧ d.2 = e.2 :=
      fun e he => (hvisited.sources e he).resolve_left List.not_mem_nil
    refine ⟨.obj hcopy (fun e he => ?_) fun e he => ?_,
      .of_fieldsVisited hget hcopy hvisited hfst fun d hd => (hdone d hd).2⟩
    · obtain ⟨d, -, hkey, -⟩ := hsource e he
      exact hkey ▸ isPaired_wellFormedString d.1.1
    · obtain ⟨d, hd, -, hvalue⟩ := hsource e he
      exact hvalue ▸ (hdone d hd).1

/-- **A JSON value becomes a clean one that mirrors it**, with enough fuel. -/
theorem cleans_of_isJson {first : Heap} {v : Held} (h : IsJson first v) :
    ∃ enough, ∀ fuel ≥ enough, Cleans (wellFormed fuel) first v := by
  have hsucc : ∀ {P : ℕ → Prop} {n : ℕ}, (∀ fuel ≥ n, P (fuel + 1)) → ∃ enough, ∀ fuel ≥ enough,
      P fuel := by
    intro P n hP
    refine ⟨n + 1, fun fuel hfuel => ?_⟩
    obtain ⟨fuel, rfl⟩ : ∃ fuel', fuel = fuel' + 1 := ⟨fuel - 1, by omega⟩
    exact hP fuel (by omega)
  induction h with
  | null => exact hsucc fun fuel (_ : fuel ≥ 0) => cleans_of_eq (fun _ => rfl) fun _ =>
      ⟨.null, .null⟩
  | bool b => exact hsucc fun fuel (_ : fuel ≥ 0) => cleans_of_eq (fun _ => rfl) fun _ =>
      ⟨.bool b, .bool b⟩
  | num q => exact hsucc fun fuel (_ : fuel ≥ 0) => cleans_of_eq (fun _ => rfl) fun _ =>
      ⟨.num q, .num q⟩
  | str units => exact hsucc fun fuel (_ : fuel ≥ 0) => cleans_of_eq (fun _ => rfl) fun _ =>
      ⟨.str (isPaired_wellFormedString units), .str units⟩
  | arr hget _ ih =>
    obtain ⟨enough, henough⟩ := exists_enough ih
    exact hsucc fun fuel hfuel => cleans_arr hget (henough fuel hfuel)
  | obj hget _ ih =>
    obtain ⟨enough, henough⟩ := exists_enough ih
    exact hsucc fun fuel hfuel => cleans_obj hget (henough fuel hfuel)

/-- **Every string of a JSON value is cleaned, and only what becomes one is one**: with enough fuel
the result is clean, mirrors the value, is the value when that is clean, and is its own; nothing
that was there is written to. -/
theorem wellFormed_spec {heap : Heap} {v : Held} (h : IsJson heap v) :
    ∃ enough heap' w, (∀ fuel ≥ enough, wellFormed fuel heap v = some (heap', w)) ∧
      IsClean heap' w ∧ (IsClean heap v → w = v ∧ heap' = heap) ∧
      (∀ fuel ≥ enough, wellFormed fuel heap' w = some (heap', w)) ∧ heap <+: heap' ∧
      Mirrors heap heap' v w := by
  obtain ⟨first, hfirst⟩ := cleans_of_isJson h
  obtain ⟨heap', w, hrun, hgrown, hsettled⟩ :=
    hfirst first le_rfl heap (List.prefix_refl heap)
  obtain ⟨hclean, hmirrors⟩ := hsettled heap' fun a _ _ => rfl
  obtain ⟨again, hagain⟩ := wellFormed_of_isClean hclean
  have hmore : ∀ fuel ≥ max first again, wellFormed fuel heap v = some (heap', w) :=
    fun fuel hfuel => wellFormed_of_le (le_trans (le_max_left _ _) hfuel) hrun
  refine ⟨max first again, heap', w, hmore, hclean, fun hv => ?_,
    fun fuel hfuel => hagain fuel (le_trans (le_max_right _ _) hfuel), hgrown, hmirrors⟩
  obtain ⟨kept, hkept⟩ := wellFormed_of_isClean hv
  have hsame := (hmore (max (max first again) kept) (le_max_left _ _)).symm.trans
    (hkept _ (le_max_right _ _))
  simp only [Option.some.injEq, Prod.mk.injEq] at hsame
  exact ⟨hsame.2, hsame.1⟩

/-- An object with an own member `__proto__`, whose array has half of a pair. -/
def halfInside : Heap :=
  [.arr [.str [0xD83D], .num 1],
    .obj true ⟨[(Utf16.unitsOf "__proto__", .ref 0)], by decide⟩]

theorem wellFormed_spec_halfInside :
    IsJson halfInside (.ref 1) ∧
      ∃ enough heap' w, (∀ fuel ≥ enough, wellFormed fuel halfInside (.ref 1) = some (heap', w)) ∧
        IsClean heap' w ∧ (IsClean halfInside (.ref 1) → w = .ref 1 ∧ heap' = halfInside) ∧
        (∀ fuel ≥ enough, wellFormed fuel heap' w = some (heap', w)) ∧ halfInside <+: heap' ∧
        Mirrors halfInside heap' (.ref 1) w := by
  have harr : IsJson halfInside (.ref 0) := .arr rfl fun x hx => by
    rcases List.mem_cons.mp hx with rfl | hx
    · exact .str _
    · exact List.mem_singleton.mp hx ▸ .num 1
  have hobj : IsJson halfInside (.ref 1) := .obj rfl fun e he =>
    List.mem_singleton.mp he ▸ harr
  exact ⟨hobj, wellFormed_spec hobj⟩

/-- An object of which two keys become one. -/
def loneKeys : OrderedMap (List UInt16) Held :=
  ⟨[([0xD800], .num 1), ([0xD801], .num 2)], by decide⟩

/-- A member of that object is lost. -/
theorem loneKeys_merged :
    IsJson [.obj true loneKeys] (.ref 0) ∧ ∃ fields' : OrderedMap (List UInt16) Held,
      wellFormed 2 [.obj true loneKeys] (.ref 0) =
        some ([.obj true loneKeys, .obj true fields'], .ref 1) ∧
      fields'.size ≠ loneKeys.size := by
  refine ⟨.obj rfl fun e he => ?_, ⟨[([0xFFFD], .num 2)], by decide⟩, by rfl, by decide⟩
  rcases List.mem_cons.mp he with rfl | he
  · exact .num 1
  · exact List.mem_singleton.mp he ▸ .num 2

end OpenConditions.Core

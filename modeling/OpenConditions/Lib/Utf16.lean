import Mathlib.Data.List.Basic
import Mathlib.Data.List.Lex
import Mathlib.Data.Char

set_option relaxedAutoImplicit false
set_option autoImplicit false

/-!
# Strings in the order of their UTF-16 code units

Scripting languages compare strings by their UTF-16 code units, which differs from the order of
the code points where a surrogate pair meets a character above it in the basic plane.

## Main definitions

* `Utf16.codeUnits` — the code units of a string.
* `Utf16.lt` — the order of two strings by their code units.

## Main results

* `Utf16.codeUnits_injective` — a string is determined by its code units.
* `Utf16.lt_eq_false_iff` — not coming before is the reverse of a linear order.
-/

namespace Utf16

/-- The code units of a character: itself, or a surrogate pair beyond the basic plane. -/
def charUnits (c : Char) : List ℕ :=
  if c.toNat < 0x10000 then [c.toNat]
  else [0xD800 + (c.toNat - 0x10000) / 0x400, 0xDC00 + (c.toNat - 0x10000) % 0x400]

/-- The code units of a string. -/
def codeUnits (s : String) : List ℕ := s.toList.flatMap charUnits

/-- Whether `s` comes before `t` in the order of their code units. -/
def lt (s t : String) : Bool := decide (codeUnits s < codeUnits t)

/-- A character is a scalar value: below the surrogates or above them, up to `0x10FFFF`. -/
theorem char_range (c : Char) : c.toNat < 0xD800 ∨ (0xDFFF < c.toNat ∧ c.toNat < 0x110000) :=
  c.valid

/-- The first code units of a text tell its first character. -/
theorem charUnits_append_inj {c d : Char} {us vs : List ℕ}
    (h : charUnits c ++ us = charUnits d ++ vs) : c = d ∧ us = vs := by
  have hc := char_range c
  have hd := char_range d
  have hcd : c.toNat = d.toNat → c = d := fun h => Char.ext (UInt32.toNat_inj.mp h)
  unfold charUnits at h
  split_ifs at h with h₁ h₂ h₂ <;>
    simp only [List.cons_append, List.nil_append, List.cons.injEq] at h
  · exact ⟨hcd h.1, h.2⟩
  · omega
  · omega
  · exact ⟨hcd (by omega), h.2.2⟩

/-- A list of characters is determined by its code units. -/
theorem flatMap_charUnits_injective :
    ∀ {cs ds : List Char}, cs.flatMap charUnits = ds.flatMap charUnits → cs = ds
  | [], [], _ => rfl
  | [], d :: ds, h => by
    simp only [List.flatMap_nil, List.flatMap_cons, charUnits] at h
    split_ifs at h <;> simp at h
  | c :: cs, [], h => by
    simp only [List.flatMap_nil, List.flatMap_cons, charUnits] at h
    split_ifs at h <;> simp at h
  | c :: cs, d :: ds, h => by
    simp only [List.flatMap_cons] at h
    obtain ⟨hcd, htail⟩ := charUnits_append_inj h
    rw [hcd, flatMap_charUnits_injective htail]

/-- A string is determined by its code units. -/
theorem codeUnits_injective : Function.Injective codeUnits := fun _ _ h =>
  String.toList_injective (flatMap_charUnits_injective h)

/-- Not coming before is the reverse of a linear order. -/
theorem lt_eq_false_iff {s t : String} : lt s t = false ↔ codeUnits t ≤ codeUnits s := by
  simp [lt]

end Utf16

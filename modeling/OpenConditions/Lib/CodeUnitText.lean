import OpenConditions.Lib.Utf16

set_option relaxedAutoImplicit false
set_option autoImplicit false

/-!
# Strings of code units

A scripting language's string is a sequence of UTF-16 code units, in which a surrogate may stand
without its pair.  Such a string is read as a text with every unpaired surrogate replaced; a text is
written as its code units, none of them unpaired.

## Main definitions

* `Utf16.wellFormedText` — the text of a string, its unpaired surrogates replaced.
* `Utf16.isPaired` — no surrogate of a string stands without its pair.
* `Utf16.unitsOf` — the string of a text.
* `Utf16.replaceLone` — a string with its unpaired surrogates replaced.

## Main results

* `Utf16.isPaired_replaceLone`, `Utf16.replaceLone_eq_self` — the result has none, and a string that
  has none is kept.
* `Utf16.wellFormedText_unitsOf` — a text that is written is read as it is.
-/

namespace Utf16

/-! ## Reading -/

/-- A code unit that begins a pair. -/
def isHigh (u : UInt16) : Bool := decide (0xD800 ≤ u.toNat ∧ u.toNat < 0xDC00)

/-- A code unit that ends a pair. -/
def isLow (u : UInt16) : Bool := decide (0xDC00 ≤ u.toNat ∧ u.toNat < 0xE000)

/-- The character of a pair. -/
def pairChar (u v : UInt16) : Char :=
  Char.ofNat (0x10000 + (u.toNat - 0xD800) * 0x400 + (v.toNat - 0xDC00))

/-- The character of a code unit outside a pair: a surrogate is replaced. -/
def unitChar (u : UInt16) : Char :=
  if isHigh u || isLow u then Char.ofNat 0xFFFD else Char.ofNat u.toNat

/-- The characters of a string. -/
def wellFormedChars : List UInt16 → List Char
  | [] => []
  | [u] => [unitChar u]
  | u :: v :: rest =>
    if isHigh u && isLow v then pairChar u v :: wellFormedChars rest
    else unitChar u :: wellFormedChars (v :: rest)

/-- The text of a string, its unpaired surrogates replaced. -/
def wellFormedText (s : List UInt16) : String := String.ofList (wellFormedChars s)

/-- No surrogate of a string stands without its pair. -/
def isPaired : List UInt16 → Bool
  | [] => true
  | [u] => !(isHigh u || isLow u)
  | u :: v :: rest =>
    if isHigh u && isLow v then isPaired rest
    else !(isHigh u || isLow u) && isPaired (v :: rest)

/-- A string with its unpaired surrogates replaced. -/
def replaceLone : List UInt16 → List UInt16
  | [] => []
  | [u] => [if isHigh u || isLow u then 0xFFFD else u]
  | u :: v :: rest =>
    if isHigh u && isLow v then u :: v :: replaceLone rest
    else (if isHigh u || isLow u then 0xFFFD else u) :: replaceLone (v :: rest)

/-- The string of a text. -/
def unitsOf (s : String) : List UInt16 := (codeUnits s).map UInt16.ofNat

/-! ## Reading what is written -/

/-- A code unit that is no surrogate is read on its own. -/
theorem wellFormedChars_cons {u : UInt16} (hu : (isHigh u || isLow u) = false)
    (rest : List UInt16) :
    wellFormedChars (u :: rest) = Char.ofNat u.toNat :: wellFormedChars rest ∧
      isPaired (u :: rest) = isPaired rest := by
  have hchar : unitChar u = Char.ofNat u.toNat := by
    rw [unitChar, hu, if_neg Bool.false_ne_true]
  have hhigh : isHigh u = false := (Bool.or_eq_false_iff.mp hu).1
  cases rest with
  | nil => exact ⟨congrArg (fun c => [c]) hchar, by simp [isPaired, hu]⟩
  | cons v rest =>
    refine ⟨?_, ?_⟩
    · rw [wellFormedChars, hhigh, Bool.false_and, if_neg Bool.false_ne_true, hchar]
    · rw [isPaired, hhigh, Bool.false_and, if_neg Bool.false_ne_true,
        (Bool.or_eq_false_iff.mp hu).2]
      rfl

/-- The code units of a character are read as it. -/
theorem wellFormedChars_charUnits (c : Char) (rest : List UInt16) :
    wellFormedChars ((charUnits c).map UInt16.ofNat ++ rest) = c :: wellFormedChars rest ∧
      isPaired ((charUnits c).map UInt16.ofNat ++ rest) = isPaired rest := by
  have hrange := char_range c
  have hofNat : Char.ofNat c.toNat = c := Char.ofNat_toNat c
  unfold charUnits
  split_ifs with hplane
  · have hunit : (UInt16.ofNat c.toNat).toNat = c.toNat := UInt16.toNat_ofNat_of_lt' hplane
    have hno : (isHigh (UInt16.ofNat c.toNat) || isLow (UInt16.ofNat c.toNat)) = false := by
      simp only [isHigh, isLow, hunit, Bool.or_eq_false_iff, decide_eq_false_iff_not]
      omega
    have hcons := wellFormedChars_cons hno rest
    rw [hunit, hofNat] at hcons
    exact hcons
  · have hhigh : (UInt16.ofNat (0xD800 + (c.toNat - 0x10000) / 0x400)).toNat =
        0xD800 + (c.toNat - 0x10000) / 0x400 := UInt16.toNat_ofNat_of_lt' (by
      simp only [UInt16.size]
      omega)
    have hlow : (UInt16.ofNat (0xDC00 + (c.toNat - 0x10000) % 0x400)).toNat =
        0xDC00 + (c.toNat - 0x10000) % 0x400 := UInt16.toNat_ofNat_of_lt' (by
      simp only [UInt16.size]
      omega)
    have hpair : (isHigh (UInt16.ofNat (0xD800 + (c.toNat - 0x10000) / 0x400)) &&
        isLow (UInt16.ofNat (0xDC00 + (c.toNat - 0x10000) % 0x400))) = true := by
      simp only [isHigh, isLow, hhigh, hlow, Bool.and_eq_true, decide_eq_true_iff]
      omega
    have hchar : pairChar (UInt16.ofNat (0xD800 + (c.toNat - 0x10000) / 0x400))
        (UInt16.ofNat (0xDC00 + (c.toNat - 0x10000) % 0x400)) = c := by
      have hsum : 0x10000 + (0xD800 + (c.toNat - 0x10000) / 0x400 - 0xD800) * 0x400 +
          (0xDC00 + (c.toNat - 0x10000) % 0x400 - 0xDC00) = c.toNat := by omega
      rw [pairChar, hhigh, hlow, hsum, hofNat]
    simp only [List.map_cons, List.map_nil, List.cons_append, List.nil_append]
    rw [wellFormedChars, isPaired, hpair, if_pos rfl, if_pos rfl, hchar]
    exact ⟨rfl, rfl⟩

/-- **What is written** is read as it is, and no surrogate of it is unpaired. -/
theorem wellFormedText_unitsOf (s : String) :
    wellFormedText (unitsOf s) = s ∧ isPaired (unitsOf s) = true := by
  have hchars : ∀ cs : List Char,
      wellFormedChars ((cs.flatMap charUnits).map UInt16.ofNat) = cs ∧
        isPaired ((cs.flatMap charUnits).map UInt16.ofNat) = true := by
    intro cs
    induction cs with
    | nil => exact ⟨rfl, rfl⟩
    | cons c cs ih =>
      obtain ⟨hread, hpaired⟩ := wellFormedChars_charUnits c
        ((cs.flatMap charUnits).map UInt16.ofNat)
      rw [List.flatMap_cons, List.map_append, hread, hpaired, ih.1]
      exact ⟨rfl, ih.2⟩
  obtain ⟨hread, hpaired⟩ := hchars s.toList
  refine ⟨?_, hpaired⟩
  rw [wellFormedText, unitsOf, codeUnits, hread, String.ofList_toList]

/-! ## Replacing -/

/-- A code unit that is no surrogate stands on its own. -/
theorem isPaired_cons {u : UInt16} (hu : (isHigh u || isLow u) = false) (rest : List UInt16) :
    isPaired (u :: rest) = isPaired rest :=
  (wellFormedChars_cons hu rest).2

/-- A code unit outside a pair, a surrogate replaced, is no surrogate. -/
theorem not_surrogate_ite (u : UInt16) :
    let w : UInt16 := if isHigh u || isLow u then 0xFFFD else u
    (isHigh w || isLow w) = false := by
  intro w
  by_cases hu : (isHigh u || isLow u) = true
  · have hw : w = 0xFFFD := if_pos hu
    rw [hw]
    decide
  · have hw : w = u := if_neg hu
    rw [hw]
    exact Bool.eq_false_iff.mpr hu

/-- **No surrogate of the result is unpaired.** -/
theorem isPaired_replaceLone (s : List UInt16) : isPaired (replaceLone s) = true := by
  induction s using replaceLone.induct with
  | case1 => rfl
  | case2 u =>
    rw [replaceLone, isPaired_cons (not_surrogate_ite u)]
    rfl
  | case3 u v rest hpair ih => rw [replaceLone, if_pos hpair, isPaired, if_pos hpair, ih]
  | case4 u v rest hpair ih =>
    rw [replaceLone, if_neg hpair, isPaired_cons (not_surrogate_ite u), ih]

/-- A string without an unpaired surrogate is kept. -/
theorem replaceLone_eq_self {s : List UInt16} (h : isPaired s = true) : replaceLone s = s := by
  induction s using replaceLone.induct with
  | case1 => rfl
  | case2 u =>
    have hu : ¬(isHigh u || isLow u) = true := by simpa [isPaired] using h
    rw [replaceLone, if_neg hu]
  | case3 u v rest hpair ih =>
    rw [isPaired, if_pos hpair] at h
    rw [replaceLone, if_pos hpair, ih h]
  | case4 u v rest hpair ih =>
    rw [isPaired, if_neg hpair, Bool.and_eq_true, Bool.not_eq_true'] at h
    rw [replaceLone, if_neg hpair, if_neg (by rw [h.1]; decide), ih h.2]

/-- A text is the one of its string. -/
theorem unitsOf_injective : Function.Injective unitsOf := fun s t h => by
  rw [← (wellFormedText_unitsOf s).1, h, (wellFormedText_unitsOf t).1]

end Utf16

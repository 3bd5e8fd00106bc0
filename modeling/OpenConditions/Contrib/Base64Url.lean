import Mathlib.Algebra.Ring.Nat
import Mathlib.Data.List.Nodup
import OpenConditions.Lib.CodeUnitText

set_option relaxedAutoImplicit false
set_option autoImplicit false

/-!
# Bytes as text

Keys, signatures and nonces travel as unpadded base64url
(`packages/contrib-core/src/base64url.ts`): three bytes are four characters, and the characters of
fewer bytes have no bits to spare.

A text is any string of code units; a byte that is written past the end of a buffer is not written,
and one that is never written is zero.

## Main definitions

* `toBase64Url` — the text of some bytes.
* `fromBase64Url` — the bytes of a text, or what is thrown.

## Main results

* `readGroup_eq_ok_iff` — a group is read exactly when it is what some bytes are written as.
* `fromBase64Url_eq_ok_iff` — a text decodes to some bytes exactly when it is their text.
-/

namespace OpenConditions.Contrib

/-! ## Encoding -/

/-- The characters of the values below 64. -/
def alphabet : List UInt16 :=
  Utf16.unitsOf "ABCDEFGHIJKLMNOPQRSTUVWXYZabcdefghijklmnopqrstuvwxyz0123456789-_"

/-- The characters by their numbers. -/
theorem alphabet_toNat : alphabet.map UInt16.toNat =
    List.range' 65 26 ++ (List.range' 97 26 ++ (List.range' 48 10 ++ [45, 95])) := by
  decide +kernel

/-- The character of a value. -/
def characterOf (value : ℕ) : List UInt16 :=
  match alphabet[value]? with
  | some unit => [unit]
  | none => Utf16.unitsOf "undefined"

/-- The text of some bytes, three by three. -/
def toBase64Url : List UInt8 → List UInt16
  | [] => []
  | [b0] =>
    characterOf (b0.toNat >>> 2) ++ characterOf (((b0.toNat &&& 0x03) <<< 4) ||| (0 >>> 4))
  | [b0, b1] =>
    characterOf (b0.toNat >>> 2) ++
      characterOf (((b0.toNat &&& 0x03) <<< 4) ||| (b1.toNat >>> 4)) ++
      characterOf (((b1.toNat &&& 0x0f) <<< 2) ||| (0 >>> 6))
  | b0 :: b1 :: b2 :: bytes =>
    characterOf (b0.toNat >>> 2) ++
      characterOf (((b0.toNat &&& 0x03) <<< 4) ||| (b1.toNat >>> 4)) ++
      characterOf (((b1.toNat &&& 0x0f) <<< 2) ||| (b2.toNat >>> 6)) ++
      characterOf (b2.toNat &&& 0x3f) ++ toBase64Url bytes

/-! ## Decoding -/

/-- The characters of a string: a surrogate pair is one. -/
def charactersOf : List UInt16 → List (List UInt16)
  | [] => []
  | [u] => [[u]]
  | u :: v :: rest =>
    if Utf16.isHigh u && Utf16.isLow v then [u, v] :: charactersOf rest
    else [u] :: charactersOf (v :: rest)

/-- The value of a character. -/
def valueOf : List UInt16 → Option ℕ
  | [unit] => alphabet.idxOf? unit
  | _ => none

/-- The bytes of a group of values; a value that is not there counts as zero. -/
def groupBytes (values : List ℕ) : Except String (List ℕ) :=
  let c0 := values.getD 0 0
  let c1 := values.getD 1 0
  let c2 := values.getD 2 0
  let c3 := values.getD 3 0
  if values.length = 2 ∧ c1 &&& 0x0f ≠ 0 then .error "non-canonical base64url trailing bits"
  else if values.length = 3 ∧ c2 &&& 0x03 ≠ 0 then
    .error "non-canonical base64url trailing bits"
  else
    .ok ([(c0 <<< 2) ||| (c1 >>> 4)] ++
      (if 3 ≤ values.length then [((c1 &&& 0x0f) <<< 4) ||| (c2 >>> 2)] else []) ++
      (if values.length = 4 then [((c2 &&& 0x03) <<< 6) ||| c3] else []))

/-- The bytes of a group of characters. -/
def readGroup (group : List UInt16) : Except String (List ℕ) :=
  match (charactersOf group).mapM valueOf with
  | none => .error "invalid base64url character"
  | some values => groupBytes values

/-- The bytes of groups of four characters, of which the last may have fewer. -/
def readGroups : List UInt16 → Except String (List ℕ)
  | [] => .ok []
  | u :: v :: w :: x :: rest =>
    (readGroup [u, v, w, x]).bind fun bytes => (readGroups rest).map fun more => bytes ++ more
  | group => readGroup group

/-- A buffer of some length after bytes are written from its start. -/
def written (length : ℕ) (bytes : List ℕ) : List UInt8 :=
  (bytes.take length ++ List.replicate (length - bytes.length) 0).map UInt8.ofNat

/-- The bytes of a text. -/
def fromBase64Url (text : List UInt16) : Except String (List UInt8) :=
  if text.length % 4 = 1 then .error "invalid base64url input"
  else (readGroups text).map (written (text.length * 3 / 4))

/-! ## Characters and values -/

/-- The characters are distinct. -/
theorem alphabet_nodup : alphabet.Nodup := by
  refine List.Nodup.of_map UInt16.toNat ?_
  rw [alphabet_toNat]
  refine List.nodup_append.mpr ⟨List.nodup_range', List.nodup_append.mpr ⟨List.nodup_range',
    List.nodup_append.mpr ⟨List.nodup_range', by decide, ?_⟩, ?_⟩, ?_⟩
  all_goals
    simp only [List.mem_append, List.mem_range'_1, List.mem_cons, List.not_mem_nil, or_false]
    omega

/-- There are 64 characters. -/
theorem alphabet_length : alphabet.length = 64 := by
  have hlength := congrArg List.length alphabet_toNat
  rw [List.length_map] at hlength
  exact hlength

/-- No character is half of a pair. -/
theorem not_surrogate_of_mem : ∀ u ∈ alphabet, (Utf16.isHigh u || Utf16.isLow u) = false := by
  intro u hu
  have hmem := List.mem_map_of_mem (f := UInt16.toNat) hu
  rw [alphabet_toNat] at hmem
  simp only [List.mem_append, List.mem_range'_1, List.mem_cons, List.not_mem_nil,
    or_false] at hmem
  simp only [Utf16.isHigh, Utf16.isLow, Bool.or_eq_false_iff, decide_eq_false_iff_not]
  omega

/-- A character's value is its place. -/
theorem idxOf?_eq_some_iff {u : UInt16} {i : ℕ} :
    alphabet.idxOf? u = some i ↔ alphabet[i]? = some u := by
  rw [List.idxOf?_eq_some_iff, List.getElem?_eq_some_iff]
  refine exists_congr fun hi => and_iff_left_of_imp fun hu j hj heq => ?_
  exact absurd ((List.Nodup.getElem_inj_iff alphabet_nodup).mp (heq.trans hu.symm)) (by omega)

/-- A value below 64 has a character. -/
theorem exists_characterOf {i : ℕ} (hi : i < 64) : ∃ u, characterOf i = [u] := by
  have hlt : i < alphabet.length := by rw [alphabet_length]; exact hi
  exact ⟨alphabet[i], by rw [characterOf, List.getElem?_eq_getElem hlt]⟩

/-- A character has the values below 64 that it is the character of. -/
theorem idxOf?_iff_characterOf {u : UInt16} {i : ℕ} :
    alphabet.idxOf? u = some i ↔ i < 64 ∧ characterOf i = [u] := by
  rw [idxOf?_eq_some_iff]
  constructor
  · intro h
    refine ⟨?_, by rw [characterOf, h]⟩
    rw [← alphabet_length]
    exact (List.getElem?_eq_some_iff.mp h).1
  · rintro ⟨hi, hu⟩
    have hlt : i < alphabet.length := by rw [alphabet_length]; exact hi
    rw [characterOf, List.getElem?_eq_getElem hlt] at hu
    rw [List.getElem?_eq_getElem hlt, (List.cons.inj hu).1]

/-- A string is read unit by unit: no pair is a character of the alphabet. -/
theorem mapM_valueOf (units : List UInt16) :
    (charactersOf units).mapM valueOf = units.mapM fun u => alphabet.idxOf? u := by
  induction units using charactersOf.induct with
  | case1 => rfl
  | case2 u => simp [charactersOf, valueOf]
  | case3 u v rest hpair ih =>
    have hnone : alphabet.idxOf? u = none := by
      rw [List.idxOf?_eq_none_iff]
      intro hmem
      have := not_surrogate_of_mem u hmem
      rw [Bool.and_eq_true] at hpair
      rw [hpair.1] at this
      cases this
    rw [charactersOf, if_pos hpair, List.mapM_cons, List.mapM_cons, hnone]
    rfl
  | case4 u v rest hpair ih =>
    rw [charactersOf, if_neg hpair, List.mapM_cons, List.mapM_cons, ih]
    rfl

/-! ## Bits -/

/-- Bits above others are added to them. -/
theorem shiftLeft_or {a b k : ℕ} (hb : b < 2 ^ k) : (a <<< k) ||| b = a * 2 ^ k + b := by
  rw [← Nat.shiftLeft_add_eq_or_of_lt hb, Nat.shiftLeft_eq]

/-- The lowest two bits. -/
theorem and_three (a : ℕ) : a &&& 0x03 = a % 4 := Nat.and_two_pow_sub_one_eq_mod a 2

/-- The lowest four bits. -/
theorem and_fifteen (a : ℕ) : a &&& 0x0f = a % 16 := Nat.and_two_pow_sub_one_eq_mod a 4

/-- The lowest six bits. -/
theorem and_sixtyThree (a : ℕ) : a &&& 0x3f = a % 64 := Nat.and_two_pow_sub_one_eq_mod a 6

/-- The values that one, two or three bytes are written as. -/
def groupValues : List UInt8 → List ℕ
  | [b0] => [b0.toNat / 4, b0.toNat % 4 * 16]
  | [b0, b1] => [b0.toNat / 4, b0.toNat % 4 * 16 + b1.toNat / 16, b1.toNat % 16 * 4]
  | [b0, b1, b2] =>
    [b0.toNat / 4, b0.toNat % 4 * 16 + b1.toNat / 16, b1.toNat % 16 * 4 + b2.toNat / 64,
      b2.toNat % 64]
  | _ => []

/-- The values of bytes have characters. -/
theorem groupValues_lt {bs : List UInt8} : ∀ v ∈ groupValues bs, v < 64 := by
  intro v hv
  unfold groupValues at hv
  split at hv
  · rename_i b0
    have h0 := b0.toNat_lt
    simp only [List.mem_cons, List.not_mem_nil, or_false] at hv
    omega
  · rename_i b0 b1
    have h0 := b0.toNat_lt
    have h1 := b1.toNat_lt
    simp only [List.mem_cons, List.not_mem_nil, or_false] at hv
    omega
  · rename_i b0 b1 b2
    have h0 := b0.toNat_lt
    have h1 := b1.toNat_lt
    have h2 := b2.toNat_lt
    simp only [List.mem_cons, List.not_mem_nil, or_false] at hv
    omega
  · cases hv

/-- The text of one byte. -/
theorem toBase64Url_one (b0 : UInt8) :
    toBase64Url [b0] = (groupValues [b0]).flatMap characterOf := by
  rw [toBase64Url, and_three, Nat.zero_shiftRight, Nat.or_zero, Nat.shiftLeft_eq,
    Nat.shiftRight_eq_div_pow]
  simp [groupValues]

/-- The text of two bytes. -/
theorem toBase64Url_two (b0 b1 : UInt8) :
    toBase64Url [b0, b1] = (groupValues [b0, b1]).flatMap characterOf := by
  have h1 : b1.toNat / 2 ^ 4 < 2 ^ 4 := by have := b1.toNat_lt; omega
  rw [toBase64Url, and_three, and_fifteen, Nat.zero_shiftRight, Nat.or_zero,
    Nat.shiftRight_eq_div_pow, Nat.shiftRight_eq_div_pow, shiftLeft_or h1, Nat.shiftLeft_eq]
  simp [groupValues]

/-- The text of three bytes and more. -/
theorem toBase64Url_three (b0 b1 b2 : UInt8) (bytes : List UInt8) :
    toBase64Url (b0 :: b1 :: b2 :: bytes) =
      (groupValues [b0, b1, b2]).flatMap characterOf ++ toBase64Url bytes := by
  have h1 : b1.toNat / 2 ^ 4 < 2 ^ 4 := by have := b1.toNat_lt; omega
  have h2 : b2.toNat / 2 ^ 6 < 2 ^ 2 := by have := b2.toNat_lt; omega
  rw [toBase64Url, and_three, and_fifteen, and_sixtyThree, Nat.shiftRight_eq_div_pow,
    Nat.shiftRight_eq_div_pow, Nat.shiftRight_eq_div_pow, shiftLeft_or h1, shiftLeft_or h2]
  simp [groupValues]

/-- The byte of two values. -/
theorem groupBytes_two {c0 c1 : ℕ} (h1 : c1 < 64) : groupBytes [c0, c1] =
    if c1 % 16 ≠ 0 then .error "non-canonical base64url trailing bits"
    else .ok [c0 * 4 + c1 / 16] := by
  have hlow : c1 / 2 ^ 4 < 2 ^ 2 := by omega
  unfold groupBytes
  simp only [List.getD_cons_zero, List.getD_cons_succ, List.length_cons, List.length_nil,
    and_fifteen, Nat.shiftRight_eq_div_pow, shiftLeft_or hlow]
  simp

/-- The bytes of three values. -/
theorem groupBytes_three {c0 c1 c2 : ℕ} (h1 : c1 < 64) (h2 : c2 < 64) :
    groupBytes [c0, c1, c2] =
      if c2 % 4 ≠ 0 then .error "non-canonical base64url trailing bits"
      else .ok [c0 * 4 + c1 / 16, c1 % 16 * 16 + c2 / 4] := by
  have hlow : c1 / 2 ^ 4 < 2 ^ 2 := by omega
  have hmid : c2 / 2 ^ 2 < 2 ^ 4 := by omega
  unfold groupBytes
  simp only [List.getD_cons_zero, List.getD_cons_succ, List.length_cons, List.length_nil,
    and_three, and_fifteen, Nat.shiftRight_eq_div_pow, shiftLeft_or hlow, shiftLeft_or hmid]
  simp

/-- The bytes of four values. -/
theorem groupBytes_four {c0 c1 c2 c3 : ℕ} (h1 : c1 < 64) (h2 : c2 < 64) (h3 : c3 < 64) :
    groupBytes [c0, c1, c2, c3] =
      .ok [c0 * 4 + c1 / 16, c1 % 16 * 16 + c2 / 4, c2 % 4 * 64 + c3] := by
  have hlow : c1 / 2 ^ 4 < 2 ^ 2 := by omega
  have hmid : c2 / 2 ^ 2 < 2 ^ 4 := by omega
  have hhigh : c3 < 2 ^ 6 := h3
  unfold groupBytes
  simp only [List.getD_cons_zero, List.getD_cons_succ, List.length_cons, List.length_nil,
    and_three, and_fifteen, Nat.shiftRight_eq_div_pow, shiftLeft_or hlow, shiftLeft_or hmid,
    shiftLeft_or hhigh]
  simp

/-- The byte of a number below 256. -/
theorem exists_byte {n : ℕ} (h : n < 256) : ∃ b : UInt8, b.toNat = n :=
  ⟨UInt8.ofNat n, by rw [UInt8.toNat_ofNat', Nat.mod_eq_of_lt h]⟩

/-- **Two to four values are read exactly when some bytes are written as them.** -/
theorem groupBytes_eq_ok_iff {values bytes : List ℕ} (hlt : ∀ v ∈ values, v < 64)
    (hfew : 2 ≤ values.length) (hmany : values.length ≤ 4) :
    groupBytes values = .ok bytes ↔
      ∃ bs : List UInt8, bs.length + 1 = values.length ∧ bytes = bs.map UInt8.toNat ∧
        groupValues bs = values := by
  match values, hfew, hmany, hlt with
  | [c0, c1], _, _, hlt =>
    simp only [List.mem_cons, List.not_mem_nil, or_false, forall_eq_or_imp, forall_eq] at hlt
    rw [groupBytes_two hlt.2]
    constructor
    · intro h
      split_ifs at h with hlow
      obtain ⟨b0, hb0⟩ := exists_byte (show c0 * 4 + c1 / 16 < 256 by omega)
      refine ⟨[b0], rfl, ?_, ?_⟩
      · rw [← Except.ok.inj h, List.map_singleton, hb0]
      · rw [groupValues, hb0]
        congr 1
        · omega
        · rw [show (c0 * 4 + c1 / 16) % 4 * 16 = c1 by omega]
    · rintro ⟨bs, hlength, rfl, hvalues⟩
      obtain ⟨b0, rfl⟩ := List.length_eq_one_iff.mp (Nat.succ.inj hlength)
      simp only [groupValues, List.cons.injEq, and_true] at hvalues
      obtain ⟨rfl, rfl⟩ := hvalues
      rw [if_neg (by omega), List.map_singleton]
      congr 2
      omega
  | [c0, c1, c2], _, _, hlt =>
    simp only [List.mem_cons, List.not_mem_nil, or_false, forall_eq_or_imp, forall_eq] at hlt
    rw [groupBytes_three hlt.2.1 hlt.2.2]
    constructor
    · intro h
      split_ifs at h with hlow
      obtain ⟨b0, hb0⟩ := exists_byte (show c0 * 4 + c1 / 16 < 256 by omega)
      obtain ⟨b1, hb1⟩ := exists_byte (show c1 % 16 * 16 + c2 / 4 < 256 by omega)
      refine ⟨[b0, b1], rfl, ?_, ?_⟩
      · rw [← Except.ok.inj h, List.map_cons, List.map_singleton, hb0, hb1]
      · rw [groupValues, hb0, hb1, List.cons.injEq, List.cons.injEq, List.cons.injEq]
        exact ⟨by omega, by omega, by omega, rfl⟩
    · rintro ⟨bs, hlength, rfl, hvalues⟩
      obtain ⟨b0, b1, rfl⟩ := List.length_eq_two.mp (Nat.succ.inj hlength)
      have hlt1 := b1.toNat_lt
      simp only [groupValues, List.cons.injEq, and_true] at hvalues
      obtain ⟨rfl, rfl, rfl⟩ := hvalues
      rw [if_neg (by omega), List.map_cons, List.map_singleton, Except.ok.injEq, List.cons.injEq,
        List.cons.injEq]
      exact ⟨by omega, by omega, rfl⟩
  | [c0, c1, c2, c3], _, _, hlt =>
    simp only [List.mem_cons, List.not_mem_nil, or_false, forall_eq_or_imp, forall_eq] at hlt
    rw [groupBytes_four hlt.2.1 hlt.2.2.1 hlt.2.2.2]
    constructor
    · intro h
      obtain ⟨b0, hb0⟩ := exists_byte (show c0 * 4 + c1 / 16 < 256 by omega)
      obtain ⟨b1, hb1⟩ := exists_byte (show c1 % 16 * 16 + c2 / 4 < 256 by omega)
      obtain ⟨b2, hb2⟩ := exists_byte (show c2 % 4 * 64 + c3 < 256 by omega)
      refine ⟨[b0, b1, b2], rfl, ?_, ?_⟩
      · rw [← Except.ok.inj h, List.map_cons, List.map_cons, List.map_singleton, hb0, hb1, hb2]
      · rw [groupValues, hb0, hb1, hb2, List.cons.injEq, List.cons.injEq, List.cons.injEq,
          List.cons.injEq]
        exact ⟨by omega, by omega, by omega, by omega, rfl⟩
    · rintro ⟨bs, hlength, rfl, hvalues⟩
      obtain ⟨b0, b1, b2, rfl⟩ := List.length_eq_three.mp (Nat.succ.inj hlength)
      have hlt1 := b1.toNat_lt
      have hlt2 := b2.toNat_lt
      simp only [groupValues, List.cons.injEq, and_true] at hvalues
      obtain ⟨rfl, rfl, rfl, rfl⟩ := hvalues
      rw [List.map_cons, List.map_cons, List.map_singleton, Except.ok.injEq, List.cons.injEq,
        List.cons.injEq, List.cons.injEq]
      exact ⟨by omega, by omega, by omega, rfl⟩

/-! ## Groups -/

/-- Characters have values exactly when they are the characters of them. -/
theorem mapM_eq_some_iff {group : List UInt16} : ∀ {values : List ℕ},
    (group.mapM fun u => alphabet.idxOf? u) = some values ↔
      (∀ v ∈ values, v < 64) ∧ values.flatMap characterOf = group := by
  induction group with
  | nil =>
    intro values
    rw [List.mapM_nil]
    constructor
    · intro h
      obtain rfl : [] = values := Option.some.inj h
      exact ⟨fun v hv => (by cases hv), rfl⟩
    · rintro ⟨hlt, hnil⟩
      cases values with
      | nil => rfl
      | cons v values =>
        obtain ⟨u, hu⟩ := exists_characterOf (hlt v List.mem_cons_self)
        rw [List.flatMap_cons, hu] at hnil
        cases hnil
  | cons u group ih =>
    intro values
    simp only [List.mapM_cons, Option.bind_eq_bind, Option.bind_eq_some_iff, Option.pure_def,
      Option.some.injEq]
    constructor
    · rintro ⟨v, hv, rest, hrest, rfl⟩
      obtain ⟨hvlt, hvu⟩ := Iff.mp idxOf?_iff_characterOf hv
      obtain ⟨hlt, htext⟩ := ih.mp hrest
      refine ⟨fun w hw => ?_, by rw [List.flatMap_cons, hvu, htext]; rfl⟩
      rcases List.mem_cons.mp hw with rfl | hw
      · exact hvlt
      · exact hlt w hw
    · rintro ⟨hlt, htext⟩
      cases values with
      | nil => cases htext
      | cons v values =>
        have hvlt := hlt v List.mem_cons_self
        obtain ⟨u', hu'⟩ := exists_characterOf hvlt
        rw [List.flatMap_cons, hu', List.singleton_append, List.cons.injEq] at htext
        obtain ⟨rfl, htext⟩ := htext
        exact ⟨v, Iff.mpr idxOf?_iff_characterOf ⟨hvlt, hu'⟩, values,
          ih.mpr ⟨fun w hw => hlt w (List.mem_cons_of_mem _ hw), htext⟩, rfl⟩

/-- Values below 64 have as many characters. -/
theorem length_flatMap_characterOf {values : List ℕ} (hlt : ∀ v ∈ values, v < 64) :
    (values.flatMap characterOf).length = values.length := by
  induction values with
  | nil => rfl
  | cons v values ih =>
    obtain ⟨u, hu⟩ := exists_characterOf (hlt v List.mem_cons_self)
    rw [List.flatMap_cons, hu, List.length_append, List.length_singleton,
      ih fun w hw => hlt w (List.mem_cons_of_mem _ hw), List.length_cons, Nat.add_comm]

/-- **A group of two to four characters is read exactly when it is what bytes are written as.** -/
theorem readGroup_eq_ok_iff {group : List UInt16} {bytes : List ℕ} (hfew : 2 ≤ group.length)
    (hmany : group.length ≤ 4) :
    readGroup group = .ok bytes ↔
      ∃ bs : List UInt8, bs.length + 1 = group.length ∧ bytes = bs.map UInt8.toNat ∧
        (groupValues bs).flatMap characterOf = group := by
  have hread : readGroup group = .ok bytes ↔ ∃ values,
      (group.mapM fun u => alphabet.idxOf? u) = some values ∧ groupBytes values = .ok bytes := by
    unfold readGroup
    rw [mapM_valueOf]
    cases group.mapM fun u => alphabet.idxOf? u with
    | none => exact ⟨fun h => (by cases h), fun ⟨_, h, _⟩ => (by cases h)⟩
    | some values =>
      refine ⟨fun h => ⟨values, rfl, h⟩, ?_⟩
      rintro ⟨values', h, hbytes⟩
      obtain rfl := Option.some.inj h
      exact hbytes
  rw [hread]
  constructor
  · rintro ⟨values, hvalues, hbytes⟩
    obtain ⟨hlt, htext⟩ := Iff.mp mapM_eq_some_iff hvalues
    have hlength : values.length = group.length := by
      rw [← htext, length_flatMap_characterOf hlt]
    obtain ⟨bs, hbs, hmap, rfl⟩ :=
      (groupBytes_eq_ok_iff hlt (hlength ▸ hfew) (hlength ▸ hmany)).mp hbytes
    exact ⟨bs, hlength ▸ hbs, hmap, htext⟩
  · rintro ⟨bs, hbs, hmap, htext⟩
    have hlength : (groupValues bs).length = group.length := by
      rw [← htext, length_flatMap_characterOf groupValues_lt]
    exact ⟨groupValues bs, Iff.mpr mapM_eq_some_iff ⟨groupValues_lt, htext⟩,
      (groupBytes_eq_ok_iff groupValues_lt (hlength ▸ hfew) (hlength ▸ hmany)).mpr
        ⟨bs, hlength ▸ hbs, hmap, rfl⟩⟩

/-! ## Texts -/

/-- The text of bytes has four characters for three bytes, and one more than bytes at the end. -/
theorem length_toBase64Url (bs : List UInt8) :
    (toBase64Url bs).length = (bs.length * 4 + 2) / 3 := by
  induction bs using toBase64Url.induct with
  | case1 => rfl
  | case2 b0 =>
    rw [toBase64Url_one, length_flatMap_characterOf groupValues_lt]
    simp [groupValues]
  | case3 b0 b1 =>
    rw [toBase64Url_two, length_flatMap_characterOf groupValues_lt]
    simp [groupValues]
  | case4 b0 b1 b2 bytes ih =>
    rw [toBase64Url_three, List.length_append, length_flatMap_characterOf groupValues_lt, ih]
    simp only [groupValues, List.length_cons, List.length_nil]
    omega

/-- **The groups of a text are read to some bytes exactly when it is their text.** -/
theorem readGroups_eq_ok_iff (text : List UInt16) : ∀ (bytes : List ℕ), text.length % 4 ≠ 1 →
    (readGroups text = .ok bytes ↔
      ∃ bs : List UInt8, bytes = bs.map UInt8.toNat ∧ toBase64Url bs = text) := by
  induction text using readGroups.induct with
  | case1 =>
    intro bytes _
    constructor
    · intro h
      exact ⟨[], (Except.ok.inj h).symm, rfl⟩
    · rintro ⟨bs, rfl, htext⟩
      have hlength := length_toBase64Url bs
      rw [htext, List.length_nil] at hlength
      obtain rfl : bs = [] := List.length_eq_zero_iff.mp (by omega)
      rfl
  | case2 u v w x rest ih =>
    intro bytes hlength
    have hrest : rest.length % 4 ≠ 1 := by simp only [List.length_cons] at hlength; omega
    rw [readGroups]
    constructor
    · intro h
      cases hgroup : readGroup [u, v, w, x] with
      | error e =>
        rw [hgroup] at h
        cases h
      | ok first =>
        rw [hgroup] at h
        cases hmore : readGroups rest with
        | error e =>
          rw [hmore] at h
          cases h
        | ok more =>
          rw [hmore] at h
          obtain rfl : first ++ more = bytes := Except.ok.inj h
          obtain ⟨bs, hbs, rfl, htext⟩ :=
            (readGroup_eq_ok_iff (by simp) (by simp)).mp hgroup
          obtain ⟨bs', rfl, htext'⟩ := (ih more hrest).mp hmore
          obtain ⟨b0, b1, b2, rfl⟩ := List.length_eq_three.mp (Nat.succ.inj hbs)
          refine ⟨[b0, b1, b2] ++ bs', by rw [List.map_append], ?_⟩
          show toBase64Url (b0 :: b1 :: b2 :: bs') = _
          rw [toBase64Url_three, htext, htext']
          rfl
    · rintro ⟨bs, rfl, htext⟩
      have hmany := length_toBase64Url bs
      rw [htext] at hmany
      simp only [List.length_cons] at hmany
      match bs, hmany, htext with
      | [], hmany, _ => simp at hmany
      | [_], hmany, _ => simp at hmany
      | [_, _], hmany, _ => simp at hmany
      | b0 :: b1 :: b2 :: bs', _, htext =>
        rw [toBase64Url_three] at htext
        have hgroup : (groupValues [b0, b1, b2]).flatMap characterOf = [u, v, w, x] ∧
            toBase64Url bs' = rest := by
          have hsplit : (groupValues [b0, b1, b2]).flatMap characterOf ++ toBase64Url bs' =
              [u, v, w, x] ++ rest := htext
          refine List.append_inj hsplit ?_
          rw [length_flatMap_characterOf groupValues_lt]
          simp [groupValues]
        rw [(readGroup_eq_ok_iff (by simp) (by simp)).mpr ⟨[b0, b1, b2], rfl, rfl, hgroup.1⟩,
          (ih _ hrest).mpr ⟨bs', rfl, hgroup.2⟩]
        rfl
  | case3 group hnil hfour =>
    intro bytes hlength
    have hfew : group.length < 4 := by
      match group, hfour with
      | [], _ => simp
      | [_], _ => simp
      | [_, _], _ => simp
      | [_, _, _], _ => simp
      | u :: v :: w :: x :: rest, hfour => exact absurd rfl (hfour u v w x rest)
    have hsome : group.length ≠ 0 := fun h => hnil (List.length_eq_zero_iff.mp h)
    have hread : readGroups group = readGroup group := by
      match group, hfew, hnil with
      | [_], _, _ => rfl
      | [_, _], _, _ => rfl
      | [_, _, _], _, _ => rfl
    rw [hread, readGroup_eq_ok_iff (by omega) (by omega)]
    have htext : ∀ bs : List UInt8, bs.length + 1 = group.length →
        toBase64Url bs = (groupValues bs).flatMap characterOf := by
      intro bs hbs
      match bs, hbs with
      | [], hbs => simp at hbs; omega
      | [b0], _ => exact toBase64Url_one b0
      | [b0, b1], _ => exact toBase64Url_two b0 b1
      | b0 :: b1 :: b2 :: bs', hbs => simp at hbs; omega
    constructor
    · rintro ⟨bs, hbs, rfl, hgroup⟩
      exact ⟨bs, rfl, (htext bs hbs).trans hgroup⟩
    · rintro ⟨bs, rfl, hgroup⟩
      have hbs := length_toBase64Url bs
      rw [hgroup] at hbs
      exact ⟨bs, by omega, rfl, (htext bs (by omega)).symm.trans hgroup⟩

/-- What is written to a buffer of its own length is there. -/
theorem written_toNat (bs : List UInt8) : written bs.length (bs.map UInt8.toNat) = bs := by
  unfold written
  rw [List.take_of_length_le (by rw [List.length_map]), List.length_map, Nat.sub_self,
    List.replicate_zero, List.append_nil, List.map_map]
  conv_rhs => rw [← List.map_id bs]
  exact List.map_congr_left fun b _ => UInt8.ofNat_toNat

/-- **A text decodes to some bytes exactly when it is their text**; every other text is refused. -/
theorem fromBase64Url_eq_ok_iff (text : List UInt16) (bs : List UInt8) :
    fromBase64Url text = .ok bs ↔ toBase64Url bs = text := by
  unfold fromBase64Url
  constructor
  · intro h
    split_ifs at h with hlength
    cases hread : readGroups text with
    | error e =>
      rw [hread] at h
      cases h
    | ok bytes =>
      rw [hread] at h
      obtain ⟨bs', rfl, rfl⟩ := (readGroups_eq_ok_iff text bytes hlength).mp hread
      have hbs : written ((toBase64Url bs').length * 3 / 4) (bs'.map UInt8.toNat) = bs :=
        Except.ok.inj h
      rw [length_toBase64Url, show (bs'.length * 4 + 2) / 3 * 3 / 4 = bs'.length by omega,
        written_toNat] at hbs
      rw [hbs]
  · rintro rfl
    have hlength := length_toBase64Url bs
    have hfew : (toBase64Url bs).length % 4 ≠ 1 := by omega
    rw [if_neg hfew, (readGroups_eq_ok_iff _ _ hfew).mpr ⟨bs, rfl, rfl⟩, hlength,
      show (bs.length * 4 + 2) / 3 * 3 / 4 = bs.length by omega]
    exact congrArg Except.ok (written_toNat bs)

/-- The bits that are not of a byte are zero. -/
example : fromBase64Url (Utf16.unitsOf "QUI") = .ok [0x41, 0x42] ∧
    fromBase64Url (Utf16.unitsOf "QUJ") = .error "non-canonical base64url trailing bits" := by
  decide +kernel

end OpenConditions.Contrib

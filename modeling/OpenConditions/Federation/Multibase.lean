import OpenConditions.Contrib.Base64Url
import OpenConditions.Lib.CanonicalJson
import OpenConditions.Lib.Radix

set_option relaxedAutoImplicit false
set_option autoImplicit false

/-!
# Keys as text

An Ed25519 key travels as a Multikey (`packages/federation/src/multibase.ts`): the letter of
base58btc, and in base58btc two bytes that say what key it is and the key.  Bytes are read as one
number, and their leading zeros are kept as leading ones.

A text is any string of code units.

## Main definitions

* `base58btcEncode`, `base58btcDecode` — bytes as text, and the bytes of a text.
* `multibaseFromRawEd25519`, `rawEd25519FromMultibase` — keys as text, and the key of a text.

## Main results

* `base58btcDecode_eq_ok_iff` — a text decodes to some bytes exactly when it is their text.
* `exists_base58btcDecode` — the texts over the alphabet decode.
* `multikey_bijective` — texts over the alphabet and bytes, and texts of keys and keys, correspond
  one to one.
-/

namespace OpenConditions.Federation

open Contrib (charactersOf)

/-! ## Base58 -/

/-- The characters of the values below 58. -/
def base58Alphabet : List UInt16 :=
  Utf16.unitsOf "123456789ABCDEFGHJKLMNPQRSTUVWXYZabcdefghijkmnopqrstuvwxyz"

/-- The characters by their numbers. -/
theorem base58Alphabet_toNat : base58Alphabet.map UInt16.toNat =
    List.range' 49 9 ++ (List.range' 65 8 ++ (List.range' 74 5 ++ (List.range' 80 11 ++
      (List.range' 97 11 ++ List.range' 109 14)))) := by
  decide +kernel

/-- There are 58 characters. -/
theorem base58Alphabet_length : base58Alphabet.length = 58 := by
  have hlength := congrArg List.length base58Alphabet_toNat
  rw [List.length_map] at hlength
  exact hlength

/-- The character of the last digit of a number. -/
def base58Char (value : ℕ) : UInt16 :=
  base58Alphabet.get ⟨value % 58, by rw [base58Alphabet_length]; exact Nat.mod_lt _ (by decide)⟩

/-- The value of a character. -/
def base58Index : List UInt16 → Option ℕ
  | [unit] => base58Alphabet.idxOf? unit
  | _ => none

/-- The digits of a number, before others. -/
def encodeDigits (value : ℕ) (encoded : List UInt16) : List UInt16 :=
  if 0 < value then encodeDigits (value / 58) (base58Char value :: encoded) else encoded
termination_by value
decreasing_by exact Nat.div_lt_self ‹_› (by decide)

/-- Bytes as text: leading zeros as ones. -/
def base58btcEncode (bytes : List UInt8) : List UInt16 :=
  let zeros := (bytes.takeWhile fun byte => byte == 0).length
  let value := bytes.foldl (fun value byte => (value <<< 8) ||| byte.toNat) 0
  List.replicate zeros (base58Char 0) ++ encodeDigits value []

/-- A character as a literal; half of a pair by its number. -/
def literalOf (char : List UInt16) : List UInt16 :=
  if Utf16.isPaired char then
    Utf16.unitsOf (String.ofList (Json.quoted (Utf16.wellFormedText char)))
  else
    Utf16.unitsOf ("\"\\u" ++ String.ofList (char.flatMap fun u => Nat.toDigits 16 u.toNat) ++ "\"")

/-- A number with one more character read. -/
def decodeChar (value : ℕ) (char : List UInt16) : Except (List UInt16) ℕ :=
  match base58Index char with
  | none => .error (Utf16.unitsOf "invalid base58btc character " ++ literalOf char)
  | some digit => .ok (value * 58 + digit)

/-- The bytes of a number, before others. -/
def decodeBytes (value : ℕ) (digits : List UInt8) : List UInt8 :=
  if 0 < value then decodeBytes (value >>> 8) (UInt8.ofNat (value &&& 0xff) :: digits) else digits
termination_by value
decreasing_by
  rw [Nat.shiftRight_eq_div_pow]
  exact Nat.div_lt_self ‹_› (by decide)

/-- The bytes of a text: leading ones as zeros. -/
def base58btcDecode (text : List UInt16) : Except (List UInt16) (List UInt8) :=
  let zeros := (text.takeWhile fun unit => unit == 0x31).length
  ((charactersOf text).foldlM decodeChar 0).map fun value =>
    List.replicate zeros 0 ++ decodeBytes value []

/-! ## Keys -/

/-- What says that a key is an Ed25519 one. -/
def ed25519PubPrefix : List UInt8 := [0xed, 0x01]

/-- The bytes of a key. -/
def ed25519PublicKeyBytes : ℕ := 32

/-- A longer text is not read. -/
def maxMultibaseLength : ℕ := 64

/-- The letter of base58btc. -/
def base58Letter : UInt16 := 0x7a

/-- The text of a key. -/
def multibaseFromRawEd25519 (publicKey : List UInt8) : Except (List UInt16) (List UInt16) :=
  if publicKey.length ≠ ed25519PublicKeyBytes then
    .error (Utf16.unitsOf ("expected a raw 32-byte Ed25519 public key, got " ++
      publicKey.length.repr ++ " bytes"))
  else .ok (base58Letter :: base58btcEncode (ed25519PubPrefix ++ publicKey))

/-- The key of a text. -/
def rawEd25519FromMultibase (multibase : List UInt16) : Except (List UInt16) (List UInt8) :=
  if maxMultibaseLength < multibase.length then
    .error (Utf16.unitsOf ("publicKeyMultibase too long (" ++ multibase.length.repr ++
      " chars; max 64)"))
  else if multibase.head? ≠ some base58Letter then
    .error (Utf16.unitsOf "publicKeyMultibase must be base58btc (leading 'z')")
  else
    match base58btcDecode (multibase.drop 1) with
    | .error message => .error message
    | .ok decoded =>
      if decoded[0]? ≠ ed25519PubPrefix[0]? ∨ decoded[1]? ≠ ed25519PubPrefix[1]? then
        .error (Utf16.unitsOf "multicodec prefix is not ed25519-pub (0xed 0x01)")
      else
        let raw := decoded.drop ed25519PubPrefix.length
        if raw.length ≠ ed25519PublicKeyBytes then
          .error (Utf16.unitsOf ("expected a 32-byte Ed25519 public key payload, got " ++
            raw.length.repr ++ " bytes"))
        else .ok raw

/-! ## Characters and digits -/

/-- The characters are distinct. -/
theorem base58Alphabet_nodup : base58Alphabet.Nodup := by
  refine List.Nodup.of_map UInt16.toNat ?_
  rw [base58Alphabet_toNat]
  refine List.nodup_append.mpr ⟨List.nodup_range', List.nodup_append.mpr ⟨List.nodup_range',
    List.nodup_append.mpr ⟨List.nodup_range', List.nodup_append.mpr ⟨List.nodup_range',
      List.nodup_append.mpr ⟨List.nodup_range', List.nodup_range', ?_⟩, ?_⟩, ?_⟩, ?_⟩, ?_⟩
  all_goals
    simp only [List.mem_append, List.mem_range'_1]
    omega

/-- The character of a digit is the one in its place. -/
theorem getElem?_base58Alphabet {d : ℕ} (hd : d < 58) :
    base58Alphabet[d]? = some (base58Char d) := by
  have hlt : d < base58Alphabet.length := by rwa [base58Alphabet_length]
  rw [List.getElem?_eq_getElem hlt]
  unfold base58Char
  simp only [Nat.mod_eq_of_lt hd]
  rfl

/-- A digit has the last digit's character. -/
theorem base58Char_mod (v : ℕ) : base58Char (v % 58) = base58Char v := by
  unfold base58Char
  simp only [Nat.mod_mod]

/-- The value of a character is the digit that it is of. -/
theorem base58Index_eq_some_iff {char : List UInt16} {d : ℕ} :
    base58Index char = some d ↔ d < 58 ∧ char = [base58Char d] := by
  constructor
  · intro h
    unfold base58Index at h
    split at h
    · rename_i unit
      obtain ⟨hlt, hunit, -⟩ := List.idxOf?_eq_some_iff.mp h
      have hd : d < 58 := by rwa [base58Alphabet_length] at hlt
      have hget := getElem?_base58Alphabet hd
      rw [List.getElem?_eq_getElem hlt, Option.some.injEq] at hget
      exact ⟨hd, by rw [← hget, hunit]⟩
    · cases h
  · rintro ⟨hd, rfl⟩
    obtain ⟨hlt, hget⟩ := List.getElem?_eq_some_iff.mp (getElem?_base58Alphabet hd)
    refine List.idxOf?_eq_some_iff.mpr ⟨hlt, hget, fun j hj heq => ?_⟩
    have hsame := (List.Nodup.getElem_inj_iff base58Alphabet_nodup).mp (heq.trans hget.symm)
    omega

/-- Digits below 58 are told apart by their characters. -/
theorem base58Char_inj {d e : ℕ} (hd : d < 58) (he : e < 58) (h : base58Char d = base58Char e) :
    d = e := by
  have hindex := Iff.mpr base58Index_eq_some_iff ⟨hd, rfl⟩
  rw [h, Iff.mpr base58Index_eq_some_iff ⟨he, rfl⟩] at hindex
  exact (Option.some.inj hindex).symm

/-- No character is half of a pair. -/
theorem not_surrogate_base58Char (d : ℕ) :
    (Utf16.isHigh (base58Char d) || Utf16.isLow (base58Char d)) = false := by
  have hmem : base58Char d ∈ base58Alphabet := List.get_mem _ _
  have hnumber := List.mem_map_of_mem (f := UInt16.toNat) hmem
  rw [base58Alphabet_toNat] at hnumber
  simp only [List.mem_append, List.mem_range'_1] at hnumber
  simp only [Utf16.isHigh, Utf16.isLow, Bool.or_eq_false_iff, decide_eq_false_iff_not]
  omega

/-- A string of characters of the alphabet is read unit by unit. -/
theorem charactersOf_map (ds : List ℕ) :
    charactersOf (ds.map base58Char) = ds.map fun d => [base58Char d] := by
  induction ds with
  | nil => rfl
  | cons d ds ih =>
    cases ds with
    | nil => rfl
    | cons e ds =>
      have hnot : (Utf16.isHigh (base58Char d) && Utf16.isLow (base58Char e)) = false := by
        rw [(Bool.or_eq_false_iff.mp (not_surrogate_base58Char d)).1, Bool.false_and]
      rw [List.map_cons, List.map_cons, charactersOf, if_neg (by rw [hnot]; decide),
        ← List.map_cons, ih]
      rfl

/-- The characters of a string are its units. -/
theorem flatten_charactersOf (text : List UInt16) : (charactersOf text).flatten = text := by
  induction text using OpenConditions.Contrib.charactersOf.induct with
  | case1 => rfl
  | case2 u => rfl
  | case3 u v rest hpair ih => rw [charactersOf, if_pos hpair, List.flatten_cons, ih]; rfl
  | case4 u v rest hpair ih => rw [charactersOf, if_neg hpair, List.flatten_cons, ih]; rfl

/-- The characters of a string are those of some digits exactly when it is their string. -/
theorem charactersOf_eq_map_iff {text : List UInt16} {ds : List ℕ} :
    (charactersOf text = ds.map fun d => [base58Char d]) ↔ text = ds.map base58Char := by
  have hflatten : ∀ es : List ℕ, (es.map fun d => [base58Char d]).flatten = es.map base58Char := by
    intro es
    induction es with
    | nil => rfl
    | cons e es ih => rw [List.map_cons, List.flatten_cons, ih]; rfl
  constructor
  · intro h
    rw [← flatten_charactersOf text, h, hflatten]
  · rintro rfl
    exact charactersOf_map ds

/-! ## Bytes as digits -/

/-- Leading zero bytes are leading zeros. -/
theorem length_takeWhile_zero (bytes : List UInt8) :
    (bytes.takeWhile fun byte => byte == 0).length =
      Radix.leadingZeros (bytes.map UInt8.toNat) := by
  rw [Radix.leadingZeros, List.takeWhile_map, List.length_map]
  have hzero : (fun byte : UInt8 => byte == 0) =
      (fun d => decide (d = 0)) ∘ UInt8.toNat := by
    funext byte
    rw [Bool.eq_iff_iff, beq_iff_eq, Function.comp_apply, decide_eq_true_eq]
    exact UInt8.toNat_inj.symm
  rw [hzero]

/-- The digits of a number are written before others. -/
theorem encodeDigits_eq (value : ℕ) (encoded : List UInt16) :
    encodeDigits value encoded = (Radix.digits 58 value).map base58Char ++ encoded := by
  induction value using Nat.strong_induction_on generalizing encoded with
  | _ value ih =>
    unfold encodeDigits
    split_ifs with hpos
    · rw [ih _ (Nat.div_lt_self hpos (by decide)), Radix.digits_of_pos (by decide) hpos,
        List.map_append, List.map_cons, List.map_nil, base58Char_mod, List.append_assoc]
      rfl
    · obtain rfl := Nat.eq_zero_of_not_pos hpos
      rw [Radix.digits_zero]
      rfl

/-- The bytes of a number are written before others. -/
theorem decodeBytes_eq (value : ℕ) (digits : List UInt8) :
    decodeBytes value digits = (Radix.digits 256 value).map UInt8.ofNat ++ digits := by
  induction value using Nat.strong_induction_on generalizing digits with
  | _ value ih =>
    have hshift : value >>> 8 = value / 256 := Nat.shiftRight_eq_div_pow value 8
    have hlast : value &&& 0xff = value % 256 := Nat.and_two_pow_sub_one_eq_mod value 8
    unfold decodeBytes
    split_ifs with hpos
    · rw [hshift, hlast, ih _ (Nat.div_lt_self hpos (by decide)),
        Radix.digits_of_pos (by decide) hpos, List.map_append, List.map_cons, List.map_nil,
        List.append_assoc]
      rfl
    · obtain rfl := Nat.eq_zero_of_not_pos hpos
      rw [Radix.digits_zero]
      rfl

/-- **The text of bytes** is the characters of their digits in base 58. -/
theorem base58btcEncode_eq (bytes : List UInt8) :
    base58btcEncode bytes =
      (Radix.convert 256 58 (bytes.map UInt8.toNat)).map base58Char := by
  unfold base58btcEncode
  dsimp only
  rw [Radix.foldl_bytes, length_takeWhile_zero, encodeDigits_eq, List.append_nil, Radix.convert,
    List.map_append, List.map_replicate]

/-- Characters have a number exactly when they are those of its digits. -/
theorem foldlM_decodeChar_eq_ok_iff {chars : List (List UInt16)} {start value : ℕ} :
    chars.foldlM decodeChar start = .ok value ↔
      ∃ ds : List ℕ, (chars = ds.map fun d => [base58Char d]) ∧ (∀ d ∈ ds, d < 58) ∧
        value = ds.foldl (fun v d => v * 58 + d) start := by
  induction chars generalizing start with
  | nil =>
    constructor
    · intro h
      exact ⟨[], rfl, by simp, (Except.ok.inj h).symm⟩
    · rintro ⟨ds, hds, -, rfl⟩
      obtain rfl := List.map_eq_nil_iff.mp hds.symm
      rfl
  | cons char chars ih =>
    rw [List.foldlM_cons]
    constructor
    · intro h
      cases hindex : base58Index char with
      | none =>
        rw [decodeChar, hindex] at h
        cases h
      | some d =>
        rw [decodeChar, hindex] at h
        obtain ⟨ds, rfl, hlt, rfl⟩ := ih.mp h
        obtain ⟨hd, rfl⟩ := Iff.mp base58Index_eq_some_iff hindex
        exact ⟨d :: ds, rfl, List.forall_mem_cons.mpr ⟨hd, hlt⟩, rfl⟩
    · rintro ⟨ds, hds, hlt, rfl⟩
      cases ds with
      | nil => cases hds
      | cons d ds =>
        obtain ⟨rfl, rfl⟩ := List.cons.inj hds
        obtain ⟨hd, hlt⟩ := List.forall_mem_cons.mp hlt
        rw [decodeChar, Iff.mpr base58Index_eq_some_iff ⟨hd, rfl⟩]
        exact ih.mpr ⟨ds, rfl, hlt, rfl⟩

/-- Leading ones are leading zeros. -/
theorem length_takeWhile_one {ds : List ℕ} (hds : ∀ d ∈ ds, d < 58) :
    ((ds.map base58Char).takeWhile fun unit => unit == 0x31).length = Radix.leadingZeros ds := by
  have hone : ∀ d, d < 58 → ((base58Char d == 0x31) = decide (d = 0)) := fun d hd => by
    have hchar : base58Char 0 = 0x31 := by decide +kernel
    rw [Bool.eq_iff_iff, beq_iff_eq, decide_eq_true_eq, ← hchar]
    exact ⟨fun h => base58Char_inj hd (by decide) h, fun h => by rw [h]⟩
  rw [Radix.leadingZeros, List.takeWhile_map, List.length_map]
  induction ds with
  | nil => rfl
  | cons d ds ih =>
    obtain ⟨hd, hds⟩ := List.forall_mem_cons.mp hds
    rw [List.takeWhile_cons, List.takeWhile_cons, Function.comp_apply, hone d hd]
    split_ifs
    · rw [List.length_cons, List.length_cons, ih hds]
    · rfl

/-- **The bytes of a text** are those of its digits in base 256. -/
theorem base58btcDecode_eq_ok_iff_digits {text : List UInt16} {bytes : List UInt8} :
    base58btcDecode text = .ok bytes ↔ ∃ ds : List ℕ, text = ds.map base58Char ∧
      (∀ d ∈ ds, d < 58) ∧ bytes.map UInt8.toNat = Radix.convert 58 256 ds := by
  have hdigits : ∀ ds : List ℕ, (∀ d ∈ ds, d < 58) →
      List.replicate ((ds.map base58Char).takeWhile fun unit => unit == 0x31).length (0 : UInt8) ++
        decodeBytes (Radix.value 58 ds) [] = (Radix.convert 58 256 ds).map UInt8.ofNat :=
    fun ds hds => by
      rw [length_takeWhile_one hds, decodeBytes_eq, List.append_nil, Radix.convert,
        List.map_append, List.map_replicate]
      rfl
  have hlt : ∀ ds : List ℕ, ∀ d ∈ Radix.convert 58 256 ds, d < 256 := fun ds d hd =>
    Radix.lt_of_mem_convert (by decide) hd
  unfold base58btcDecode
  constructor
  · intro h
    cases hvalue : (charactersOf text).foldlM decodeChar 0 with
    | error message =>
      rw [hvalue] at h
      cases h
    | ok value =>
      rw [hvalue] at h
      obtain ⟨ds, hds, hbelow, rfl⟩ := Iff.mp foldlM_decodeChar_eq_ok_iff hvalue
      obtain rfl := Iff.mp charactersOf_eq_map_iff hds
      have hbytes := Except.ok.inj h
      refine ⟨ds, rfl, hbelow, ?_⟩
      rw [← hbytes]
      exact (congrArg (List.map UInt8.toNat) (hdigits ds hbelow)).trans
        (Radix.map_toNat_ofNat (hlt ds))
  · rintro ⟨ds, rfl, hbelow, hbytes⟩
    have hvalue : (charactersOf (ds.map base58Char)).foldlM decodeChar 0 =
        .ok (Radix.value 58 ds) :=
      Iff.mpr foldlM_decodeChar_eq_ok_iff ⟨ds, charactersOf_map ds, hbelow, rfl⟩
    dsimp only
    rw [hvalue]
    refine congrArg Except.ok ((hdigits ds hbelow).trans ?_)
    refine List.map_injective_iff.mpr (fun _ _ => UInt8.toNat_inj.mp) ?_
    rw [Radix.map_toNat_ofNat (hlt ds), hbytes]

/-! ## Texts and bytes -/

/-- **A text decodes to some bytes exactly when it is their text.** -/
theorem base58btcDecode_eq_ok_iff {text : List UInt16} {bytes : List UInt8} :
    base58btcDecode text = .ok bytes ↔ base58btcEncode bytes = text := by
  rw [base58btcDecode_eq_ok_iff_digits, base58btcEncode_eq]
  constructor
  · rintro ⟨ds, rfl, hds, hbytes⟩
    rw [hbytes, Radix.convert_convert (by decide) hds]
  · rintro rfl
    exact ⟨_, rfl, fun d hd => Radix.lt_of_mem_convert (by decide) hd,
      (Radix.convert_convert (by decide) Radix.toNat_lt_of_mem).symm⟩

/-- The texts over the alphabet decode. -/
theorem exists_base58btcDecode {text : List UInt16} (h : ∀ u ∈ text, u ∈ base58Alphabet) :
    ∃ bytes, base58btcDecode text = .ok bytes := by
  have hdigits : ∃ ds : List ℕ, text = ds.map base58Char ∧ ∀ d ∈ ds, d < 58 := by
    induction text with
    | nil => exact ⟨[], rfl, by simp⟩
    | cons u text ih =>
      obtain ⟨hu, htext⟩ := List.forall_mem_cons.mp h
      obtain ⟨ds, rfl, hds⟩ := ih htext
      obtain ⟨d, hd⟩ := List.mem_iff_getElem?.mp hu
      have hlt : d < 58 := by
        rw [← base58Alphabet_length]
        exact (List.getElem?_eq_some_iff.mp hd).1
      rw [getElem?_base58Alphabet hlt, Option.some.injEq] at hd
      exact ⟨d :: ds, by rw [List.map_cons, hd], List.forall_mem_cons.mpr ⟨hlt, hds⟩⟩
  obtain ⟨ds, htext, hds⟩ := hdigits
  have hlt : ∀ d ∈ Radix.convert 58 256 ds, d < 256 := fun d hd =>
    Radix.lt_of_mem_convert (by decide) hd
  exact ⟨(Radix.convert 58 256 ds).map UInt8.ofNat,
    Iff.mpr base58btcDecode_eq_ok_iff_digits ⟨ds, htext, hds, Radix.map_toNat_ofNat hlt⟩⟩

/-! ## Texts and keys -/

/-- The text of a key is short. -/
theorem length_multibase {key : List UInt8} (hkey : key.length = ed25519PublicKeyBytes) :
    (base58btcEncode (ed25519PubPrefix ++ key)).length ≤ 47 := by
  have hlength : ((ed25519PubPrefix ++ key).map UInt8.toNat).length = 34 := by
    rw [List.length_map, List.length_append, hkey]
    rfl
  have hvalue : Radix.value 256 ((ed25519PubPrefix ++ key).map UInt8.toNat) < 58 ^ 47 := by
    refine lt_trans (Radix.value_lt_pow (by decide) Radix.toNat_lt_of_mem) ?_
    rw [hlength]
    norm_num
  have hzeros : Radix.leadingZeros ((ed25519PubPrefix ++ key).map UInt8.toNat) = 0 := rfl
  rw [base58btcEncode_eq, List.length_map, Radix.convert, hzeros]
  exact Radix.length_digits_le (by decide) hvalue

/-- A text has a key exactly when it is the key's. -/
theorem rawEd25519FromMultibase_eq_ok_iff {text : List UInt16} {key : List UInt8} :
    rawEd25519FromMultibase text = .ok key ↔ multibaseFromRawEd25519 key = .ok text := by
  unfold rawEd25519FromMultibase multibaseFromRawEd25519
  constructor
  · intro h
    split_ifs at h with hlong hletter
    cases hdecoded : base58btcDecode (text.drop 1) with
    | error message =>
      rw [hdecoded] at h
      cases h
    | ok decoded =>
      rw [hdecoded] at h
      dsimp only at h
      split_ifs at h with hprefix hraw
      obtain rfl := Except.ok.inj h
      have hsplit : decoded = ed25519PubPrefix ++ decoded.drop ed25519PubPrefix.length := by
        obtain ⟨hfirst, hsecond⟩ := not_or.mp hprefix
        rcases decoded with - | ⟨first, - | ⟨second, rest⟩⟩
        · exact absurd (not_not.mp hfirst) (by simp [ed25519PubPrefix])
        · exact absurd (not_not.mp hsecond) (by simp [ed25519PubPrefix])
        · obtain rfl : first = 0xed := Option.some.inj (not_not.mp hfirst)
          obtain rfl : second = 0x01 := Option.some.inj (not_not.mp hsecond)
          rfl
      have htext : text = base58Letter :: text.drop 1 := by
        cases text with
        | nil => exact absurd (not_not.mp hletter) (by simp)
        | cons letter rest =>
          obtain rfl : letter = base58Letter := Option.some.inj (not_not.mp hletter)
          rfl
      rw [if_neg hraw, ← hsplit, Iff.mp base58btcDecode_eq_ok_iff hdecoded, ← htext]
  · intro h
    split_ifs at h with hlength
    obtain rfl := Except.ok.inj h
    have hlong : ¬maxMultibaseLength <
        (base58Letter :: base58btcEncode (ed25519PubPrefix ++ key)).length := by
      have hshort := length_multibase (not_not.mp hlength)
      rw [List.length_cons, maxMultibaseLength]
      omega
    have hdecoded : base58btcDecode ((base58Letter ::
        base58btcEncode (ed25519PubPrefix ++ key)).drop 1) = .ok (ed25519PubPrefix ++ key) :=
      Iff.mpr base58btcDecode_eq_ok_iff rfl
    rw [if_neg hlong, if_neg (by simp), hdecoded]
    dsimp only
    rw [if_neg (by simp [ed25519PubPrefix]), List.drop_left, if_neg hlength]

/-- **Bytes and texts over the alphabet, and keys and their texts, correspond one to one.** -/
theorem multikey_bijective :
    (∀ bytes, base58btcDecode (base58btcEncode bytes) = .ok bytes) ∧
      (∀ text, (∀ u ∈ text, u ∈ base58Alphabet) →
        ∃ bytes, base58btcDecode text = .ok bytes ∧ base58btcEncode bytes = text) ∧
      ∀ text key, rawEd25519FromMultibase text = .ok key ↔
        multibaseFromRawEd25519 key = .ok text := by
  refine ⟨fun bytes => Iff.mpr base58btcDecode_eq_ok_iff rfl, fun text htext => ?_,
    fun text key => rawEd25519FromMultibase_eq_ok_iff⟩
  obtain ⟨bytes, hbytes⟩ := exists_base58btcDecode htext
  exact ⟨bytes, hbytes, Iff.mp base58btcDecode_eq_ok_iff hbytes⟩

end OpenConditions.Federation

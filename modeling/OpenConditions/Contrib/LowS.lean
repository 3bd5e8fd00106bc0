import OpenConditions.Lib.Radix

set_option relaxedAutoImplicit false
set_option autoImplicit false

/-!
# One encoding of a signature

A P-256 signature is a pair of numbers, and with one pair its twin verifies too
(`packages/contrib-core/src/lowS.ts`).  Signing and checking agree on the one whose second number is
low.

The arrays that a program holds have addresses; an array that is made anew has the next one.

## Main definitions

* `bytesToBigInt`, `writeBigIntTo32` — numbers and their bytes.
* `normalizeLowS` — the array of the low form of a signature.
* `assertCanonicalSignature` — whether a signature is in its one form.
* `signatureOf` — the bytes of a pair of numbers.

## Main results

* `writeLoop_eq` — a number is written in the bytes that are its own.
* `normalizeLowS_spec` — what is made of a signature, and that no array is written to.
* `signature_canonical` — exactly one encoding of a signature is accepted.
-/

namespace OpenConditions.Contrib

/-! ## Numbers and bytes -/

/-- The order of the group. -/
def p256Order : ℕ := 0xffffffff00000000ffffffffffffffffbce6faada7179e84f3b9cac2fc632551

/-- The largest number that is low. -/
def p256HalfOrder : ℕ := p256Order >>> 1

/-- The number of some bytes. -/
def bytesToBigInt (bytes : List UInt8) : ℕ :=
  bytes.foldl (fun value byte => (value <<< 8) ||| byte.toNat) 0

/-- Writes a number byte by byte, the last one first. -/
def writeLoop (offset : ℕ) : ℕ → ℤ → List UInt8 → List UInt8
  | 0, _, target => target
  | i + 1, rest, target =>
    writeLoop offset i (rest / 256) (target.set (offset + i) (UInt8.ofNat (rest % 256).toNat))

/-- Writes a number in 32 bytes from an offset on. -/
def writeBigIntTo32 (value : ℤ) (target : List UInt8) (offset : ℕ) : List UInt8 :=
  writeLoop offset 32 value target

/-! ## Forms of a signature -/

/-- The arrays that a program holds. -/
abbrev Arrays := List (List UInt8)

/-- The address of the low form of the signature at an address, with the arrays then held. -/
def normalizeLowS (arrays : Arrays) (raw : ℕ) : Except String (Arrays × ℕ) :=
  let bytes := arrays.getD raw []
  if bytes.length ≠ 64 then
    .error ("normalizeLowS requires a raw 64-byte r||s signature, got " ++ bytes.length.repr)
  else
    let s := bytesToBigInt (bytes.drop 32)
    if s ≤ p256HalfOrder then .ok (arrays, raw)
    else
      let normalized := arrays.length
      .ok ((arrays ++ [bytes]).modify normalized fun target =>
        writeBigIntTo32 (p256Order - s) target 32, normalized)

/-- Whether a signature is in its one form. -/
def assertCanonicalSignature (raw : List UInt8) : Except String Unit :=
  let r := bytesToBigInt (raw.take 32)
  let s := bytesToBigInt (raw.drop 32)
  if r = 0 ∨ p256Order ≤ r then .error "non-canonical signature: r must be in [1, n-1]"
  else if s = 0 then .error "non-canonical signature: s must be in [1, n/2]"
  else if p256HalfOrder < s then
    .error "non-canonical signature: high-S form (s > n/2); only the low-S twin is accepted"
  else .ok ()

/-! ## Signatures of numbers -/

/-- The bytes of a number, 32 of them. -/
def bytesOf (v : ℕ) : List UInt8 := (Radix.fixed 256 32 v).map UInt8.ofNat

/-- The bytes of a pair of numbers. -/
def signatureOf (r s : ℕ) : List UInt8 := bytesOf r ++ bytesOf s

/-- A number is one of a signature. -/
def InRange (v : ℕ) : Prop := 1 ≤ v ∧ v ≤ p256Order - 1

/-- The order is odd, and has no more than 32 bytes. -/
theorem p256Order_spec : p256Order = 2 * p256HalfOrder + 1 ∧ p256Order < 256 ^ 32 := by
  decide

@[simp] theorem length_bytesOf (v : ℕ) : (bytesOf v).length = 32 := by
  rw [bytesOf, List.length_map, Radix.length_fixed]

/-- The number of a number's bytes is it. -/
theorem bytesToBigInt_bytesOf {v : ℕ} (hv : v < 256 ^ 32) : bytesToBigInt (bytesOf v) = v := by
  rw [bytesToBigInt, Radix.foldl_bytes, bytesOf,
    Radix.map_toNat_ofNat fun d => Radix.lt_of_mem_fixed (by decide), Radix.value_fixed hv]

/-- Some bytes, 32 of them, are those of their number. -/
theorem bytesOf_bytesToBigInt {bytes : List UInt8} (h : bytes.length = 32) :
    bytesOf (bytesToBigInt bytes) = bytes := by
  have hfixed : Radix.fixed 256 (bytes.map UInt8.toNat).length
      (Radix.value 256 (bytes.map UInt8.toNat)) = bytes.map UInt8.toNat :=
    Radix.fixed_value Radix.toNat_lt_of_mem
  rw [List.length_map, h] at hfixed
  rw [bytesToBigInt, Radix.foldl_bytes, bytesOf, hfixed, Radix.map_ofNat_toNat]

/-- **A number is written** in the bytes that are its own, and no others. -/
theorem writeLoop_eq {offset n v : ℕ} {target : List UInt8} (h : offset + n ≤ target.length) :
    writeLoop offset n v target = target.take offset ++
      (Radix.fixed 256 n v).map UInt8.ofNat ++ target.drop (offset + n) := by
  induction n generalizing v target with
  | zero => simp [writeLoop, Radix.fixed]
  | succ n ih =>
    have hlt : offset + n < target.length := by omega
    have hrest : ((v : ℤ) / 256) = ((v / 256 : ℕ) : ℤ) := by omega
    have hlast : ((v : ℤ) % 256).toNat = v % 256 := by omega
    rw [writeLoop, hrest, hlast, ih (by rw [List.length_set]; omega),
      List.take_set_of_le (by omega), List.drop_set, if_neg (by omega), Nat.sub_self,
      List.drop_eq_getElem_cons hlt, List.set_cons_zero, Radix.fixed, List.map_append,
      List.map_singleton, List.append_assoc, List.append_assoc, List.append_assoc]
    rfl

/-! ## The low form -/

/-- The low one of a number and its twin. -/
def lowOf (s : ℕ) : ℕ := if s ≤ p256HalfOrder then s else p256Order - s

/-- A number of a signature has no more than 32 bytes. -/
theorem InRange.lt {v : ℕ} (h : InRange v) : v < 256 ^ 32 :=
  lt_of_le_of_lt (h.2.trans (Nat.sub_le _ _)) p256Order_spec.2

/-- The twin of a number of a signature is one too. -/
theorem InRange.twin {s : ℕ} (h : InRange s) : InRange (p256Order - s) := by
  obtain ⟨hlow, hhigh⟩ := h
  have horder := p256Order_spec.1
  exact ⟨by omega, by omega⟩

/-- A low number is its own low one. -/
theorem lowOf_of_le {s : ℕ} (h : s ≤ p256HalfOrder) : lowOf s = s := if_pos h

/-- The low one is low, and in range. -/
theorem InRange.lowOf_spec {s : ℕ} (h : InRange s) :
    InRange (lowOf s) ∧ lowOf s ≤ p256HalfOrder := by
  have horder := p256Order_spec.1
  unfold lowOf
  split_ifs with hs
  · exact ⟨h, hs⟩
  · exact ⟨h.twin, by omega⟩

/-- A number and its twin have one low one, and the other is not low. -/
theorem InRange.lowOf_twin {s : ℕ} (h : InRange s) :
    lowOf (p256Order - s) = lowOf s ∧ (s ≤ p256HalfOrder ↔ ¬p256Order - s ≤ p256HalfOrder) := by
  obtain ⟨hlow, hhigh⟩ := h
  have horder := p256Order_spec.1
  unfold lowOf
  split_ifs <;> omega

@[simp] theorem length_signatureOf (r s : ℕ) : (signatureOf r s).length = 64 := by
  rw [signatureOf, List.length_append, length_bytesOf, length_bytesOf]

/-- The first bytes of a signature are those of its first number. -/
theorem take_signatureOf (r s : ℕ) : (signatureOf r s).take 32 = bytesOf r :=
  List.take_left' (length_bytesOf r)

/-- The other bytes of a signature are those of its second number. -/
theorem drop_signatureOf (r s : ℕ) : (signatureOf r s).drop 32 = bytesOf s :=
  List.drop_left' (length_bytesOf r)

/-- Every string of 64 bytes is the signature of two numbers. -/
theorem signatureOf_bytesToBigInt {raw : List UInt8} (h : raw.length = 64) :
    signatureOf (bytesToBigInt (raw.take 32)) (bytesToBigInt (raw.drop 32)) = raw := by
  rw [signatureOf, bytesOf_bytesToBigInt (by rw [List.length_take, h]; rfl),
    bytesOf_bytesToBigInt (by rw [List.length_drop, h]), List.take_append_drop]

/-- The low number written after the first one is the signature of the two. -/
theorem writeBigIntTo32_signatureOf (r s v : ℕ) :
    writeBigIntTo32 v (signatureOf r s) 32 = signatureOf r v := by
  have hrest : (signatureOf r s).drop (32 + 32) = [] :=
    List.drop_eq_nil_of_le (by rw [length_signatureOf])
  rw [writeBigIntTo32, writeLoop_eq (by rw [length_signatureOf]), hrest, List.append_nil,
    take_signatureOf]
  rfl

/-- **The low form** of a signature is its first number with the low one; no array is written to. -/
theorem normalizeLowS_spec {arrays : Arrays} {p r s : ℕ} (hs : InRange s)
    (hp : arrays[p]? = some (signatureOf r s)) :
    ∃ arrays' q, normalizeLowS arrays p = .ok (arrays', q) ∧ arrays <+: arrays' ∧
      arrays'[q]? = some (signatureOf r (lowOf s)) := by
  have hget : arrays.getD p [] = signatureOf r s := by
    rw [List.getD_eq_getElem?_getD, hp, Option.getD_some]
  unfold normalizeLowS
  dsimp only
  rw [hget, if_neg (by rw [length_signatureOf]; simp), drop_signatureOf,
    bytesToBigInt_bytesOf hs.lt]
  split_ifs with hlow
  · exact ⟨arrays, p, rfl, List.prefix_refl arrays, by rw [lowOf_of_le hlow, hp]⟩
  · have hle : s ≤ p256Order := hs.2.trans (Nat.sub_le _ _)
    have hmodify : (arrays ++ [signatureOf r s]).modify arrays.length
        (fun target => writeBigIntTo32 (p256Order - s) target 32) =
          arrays ++ [signatureOf r (lowOf s)] := by
      rw [← Nat.cast_sub hle, List.modify_eq_take_drop, List.take_left, List.drop_left,
        List.modifyHead_cons, writeBigIntTo32_signatureOf, lowOf, if_neg hlow]
    refine ⟨_, _, rfl, ?_, ?_⟩
    · rw [hmodify]
      exact List.prefix_append _ _
    · rw [hmodify, List.getElem?_append_right (Nat.le_refl _), Nat.sub_self]
      rfl

/-- The array of a low signature is returned as it is. -/
theorem normalizeLowS_of_le {arrays : Arrays} {p r s : ℕ} (hs : InRange s)
    (hlow : s ≤ p256HalfOrder) (hp : arrays[p]? = some (signatureOf r s)) :
    normalizeLowS arrays p = .ok (arrays, p) := by
  have hget : arrays.getD p [] = signatureOf r s := by
    rw [List.getD_eq_getElem?_getD, hp, Option.getD_some]
  unfold normalizeLowS
  dsimp only
  rw [hget, if_neg (by rw [length_signatureOf]; simp), drop_signatureOf,
    bytesToBigInt_bytesOf hs.lt, if_pos hlow]

/-! ## The accepted form -/

/-- A string of bytes is accepted when its numbers are in range and the second one is low. -/
theorem assertCanonicalSignature_eq_ok_iff {raw : List UInt8} :
    assertCanonicalSignature raw = .ok () ↔ InRange (bytesToBigInt (raw.take 32)) ∧
      InRange (bytesToBigInt (raw.drop 32)) ∧ bytesToBigInt (raw.drop 32) ≤ p256HalfOrder := by
  have horder := p256Order_spec.1
  have hhalf : 0 < p256HalfOrder := by decide
  unfold assertCanonicalSignature InRange
  dsimp only
  generalize bytesToBigInt (raw.take 32) = r
  generalize bytesToBigInt (raw.drop 32) = s
  split_ifs <;> simp only [true_iff, false_iff] <;> omega

/-- A signature is accepted exactly when its second number is low. -/
theorem assertCanonicalSignature_signatureOf {r s : ℕ} (hr : InRange r) (hs : InRange s) :
    assertCanonicalSignature (signatureOf r s) = .ok () ↔ s ≤ p256HalfOrder := by
  rw [assertCanonicalSignature_eq_ok_iff, take_signatureOf, drop_signatureOf,
    bytesToBigInt_bytesOf hr.lt, bytesToBigInt_bytesOf hs.lt]
  exact ⟨fun h => h.2.2, fun h => ⟨hr, hs, h⟩⟩

/-- **Exactly one encoding of a signature is accepted**: of a signature and its twin the low one,
which both are brought to without writing to their arrays; and no string of 64 bytes is accepted
whose numbers are not in range. -/
theorem signature_canonical :
    (∀ r s, InRange r → InRange s → s ≠ p256Order - s ∧
      ∃ low, (low = s ∨ low = p256Order - s) ∧
        (∀ t, t = s ∨ t = p256Order - s →
          (assertCanonicalSignature (signatureOf r t) = .ok () ↔ t = low) ∧
          ∀ (arrays : Arrays) (p : ℕ), arrays[p]? = some (signatureOf r t) →
            ∃ arrays' q, normalizeLowS arrays p = .ok (arrays', q) ∧ arrays <+: arrays' ∧
              arrays'[q]? = some (signatureOf r low) ∧
              normalizeLowS arrays' q = .ok (arrays', q))) ∧
    (∀ raw : List UInt8, raw.length = 64 →
      ¬(InRange (bytesToBigInt (raw.take 32)) ∧ InRange (bytesToBigInt (raw.drop 32))) →
      ∃ message, assertCanonicalSignature raw = .error message) ∧
    ∀ raw : List UInt8, raw.length = 64 →
      signatureOf (bytesToBigInt (raw.take 32)) (bytesToBigInt (raw.drop 32)) = raw := by
  refine ⟨fun r s hr hs => ?_, fun raw _ hout => ?_, fun raw => signatureOf_bytesToBigInt⟩
  · obtain ⟨htwin, honly⟩ := hs.lowOf_twin
    obtain ⟨hrange, hlow⟩ := hs.lowOf_spec
    have hform : ∀ t, t = s ∨ t = p256Order - s → InRange t ∧ lowOf t = lowOf s := by
      rintro t (rfl | rfl)
      · exact ⟨hs, rfl⟩
      · exact ⟨hs.twin, htwin⟩
    refine ⟨fun heq => ?_, lowOf s, ?_, fun t ht => ?_⟩
    · rw [← heq] at honly
      exact (iff_not_self honly).elim
    · unfold lowOf
      split_ifs
      · exact Or.inl rfl
      · exact Or.inr rfl
    · obtain ⟨htrange, htlow⟩ := hform t ht
      refine ⟨?_, fun arrays p hp => ?_⟩
      · rw [assertCanonicalSignature_signatureOf hr htrange]
        refine ⟨fun h => ?_, fun h => h ▸ hlow⟩
        rw [← htlow, lowOf_of_le h]
      · obtain ⟨arrays', q, hok, hprefix, hq⟩ := normalizeLowS_spec htrange hp
        rw [htlow] at hq
        exact ⟨arrays', q, hok, hprefix, hq, normalizeLowS_of_le hrange hlow hq⟩
  · cases hassert : assertCanonicalSignature raw with
    | error message => exact ⟨message, rfl⟩
    | ok _ =>
      obtain ⟨hr, hs, -⟩ := Iff.mp assertCanonicalSignature_eq_ok_iff hassert
      exact absurd ⟨hr, hs⟩ hout

end OpenConditions.Contrib

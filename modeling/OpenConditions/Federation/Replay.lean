import Mathlib.Tactic.Linarith
import OpenConditions.Federation.HttpSignature

set_option relaxedAutoImplicit false
set_option autoImplicit false

/-!
# Replays of a federated message

A nonce is remembered for `nonceTtlSec` from the instant it is claimed, while a message stays
acceptable until `clockSkewSec` after the `expires` its signer chose.  The two fit together when
the message is accepted less than `expiresWindowSec` before its `expires`, and only then.

## Main definitions

* `Call`, `verifyAll` — a run of verifications, each at its clock time.
* `InMemoryNonceStore.Holds` — a nonce is held until some instant.

## Main results

* `verifyMessage_holds` — a verification before that instant keeps the nonce held.
* `accepted_once_iff` — an accepted message is refused ever after exactly when it was accepted
  less than `expiresWindowSec` before its `expires`.
-/

namespace OpenConditions.Federation

variable {Key : Type}

/-! ## The nonce store keeps what it holds -/

namespace InMemoryNonceStore

/-- The store holds the nonce under `k` at least until `limit`. -/
def Holds (s : InMemoryNonceStore) (k : String) (limit : ℤ) : Prop :=
  ∃ expiresAt, s.entries.get k = some expiresAt ∧ limit ≤ expiresAt

variable {s : InMemoryNonceStore} {k : String} {limit now : ℤ}

/-- A held nonce is seen. -/
theorem seen_of_holds {peerId nonce : String} (h : s.Holds (key peerId nonce) limit)
    (hnow : now < limit) : (s.seen now peerId nonce).1 = true := by
  obtain ⟨expiresAt, hget, hle⟩ := h
  have hlt : ¬expiresAt ≤ now := by omega
  simp [seen, hget, hlt]

/-- Looking a nonce up drops no nonce that is held. -/
theorem seen_holds (h : s.Holds k limit) (hnow : now < limit) (peerId nonce : String) :
    (s.seen now peerId nonce).2.Holds k limit := by
  obtain ⟨expiresAt, hget, hle⟩ := h
  unfold seen
  cases hother : s.entries.get (key peerId nonce) with
  | none => exact ⟨expiresAt, hget, hle⟩
  | some other =>
    by_cases hexp : other ≤ now
    · have hne : k ≠ key peerId nonce := by
        rintro rfl
        rw [hget] at hother
        cases hother
        omega
      simp only [if_pos hexp]
      exact ⟨expiresAt, by simp [OrderedMap.get_delete, hne, hget], hle⟩
    · simp only [if_neg hexp]
      exact ⟨expiresAt, hget, hle⟩

/-- The sweep drops no nonce that is held. -/
theorem sweep_holds (h : s.Holds k limit) (hnow : now < limit) : (s.sweep now).Holds k limit := by
  obtain ⟨expiresAt, hget, hle⟩ := h
  have hlt : ¬expiresAt ≤ now := by omega
  unfold sweep
  split
  · exact ⟨expiresAt, hget, hle⟩
  · exact ⟨expiresAt, by simp [OrderedMap.get_filter, hget, hlt], hle⟩

/-- A claim that is won is held for its lifetime. -/
theorem reserve_claims {peerId nonce : String} {ttlSec : ℤ}
    (h : (s.reserve now peerId nonce ttlSec).1 = true) :
    (s.reserve now peerId nonce ttlSec).2.entries.get (key peerId nonce) =
      some (now + ttlSec * 1000) := by
  unfold reserve at h ⊢
  cases hget : s.entries.get (key peerId nonce) with
  | none => simp
  | some expiresAt =>
    by_cases hlt : now < expiresAt
    · simp [hget, hlt] at h
    · simp [hlt]

/-- A claim leaves every held nonce held. -/
theorem reserve_holds (h : s.Holds k limit) (hnow : now < limit) (peerId nonce : String)
    (ttlSec : ℤ) : (s.reserve now peerId nonce ttlSec).2.Holds k limit := by
  have hswept := sweep_holds h hnow
  have hset : k ≠ key peerId nonce →
      ((s.sweep now).entries.set (key peerId nonce) (now + ttlSec * 1000)).get k =
        (s.sweep now).entries.get k := OrderedMap.get_set_of_ne _ _
  unfold reserve
  cases hother : s.entries.get (key peerId nonce) with
  | none =>
    have hne : k ≠ key peerId nonce := by
      rintro rfl
      obtain ⟨expiresAt, hget, -⟩ := h
      rw [hget] at hother
      cases hother
    simpa only [Holds, hset hne] using hswept
  | some other =>
    by_cases hlt : now < other
    · simpa only [if_pos hlt] using h
    · have hne : k ≠ key peerId nonce := by
        rintro rfl
        obtain ⟨expiresAt, hget, hle⟩ := h
        rw [hget] at hother
        cases hother
        omega
      simpa only [if_neg hlt, Holds, hset hne] using hswept

/-- A claim of a nonce that is not in the store is won. -/
theorem reserve_of_absent {peerId nonce : String} {ttlSec : ℤ}
    (h : s.entries.get (key peerId nonce) = none) :
    (s.reserve now peerId nonce ttlSec).1 = true := by
  simp [reserve, h]

/-- A nonce past its lifetime is not seen, and is gone. -/
theorem seen_of_expired {peerId nonce : String} {expiresAt : ℤ}
    (h : s.entries.get (key peerId nonce) = some expiresAt) (hnow : expiresAt ≤ now) :
    (s.seen now peerId nonce).1 = false ∧
      (s.seen now peerId nonce).2.entries.get (key peerId nonce) = none := by
  simp [seen, h, hnow, OrderedMap.get_delete]

end InMemoryNonceStore

/-! ## What an accepted message has passed -/

/-- The window of a signature, as inequalities. -/
theorem inWindow_iff {now : ℤ} {created expires : ℚ} :
    inWindow now created expires = true ↔
      created ≤ now + clockSkewSec ∧ now - clockSkewSec ≤ expires := by
  simp [inWindow]

/-- The clock enters the checks through the window alone. -/
theorem checkedInput_at {lib : Library Key} {now : ℤ} {p : VerifyParams Key} {c : Checked Key}
    (h : checkedInput lib now p = .ok c) (now' : ℤ) :
    checkedInput lib now' p =
      if inWindow now' c.created c.expires then .ok c else .error .expired := by
  unfold checkedInput at h ⊢
  split at h
  · cases h
  · rename_i hdigest
    rw [if_neg hdigest]
    split at h
    · cases h
    · split at h
      · split_ifs at h with h1 h2 h3 h4 h5
        split at h
        · cases h
        · rename_i created expires _ _ _ publicKey _
          cases h
          by_cases hopen : inWindow now' created expires = true
          · simp_all
          · simp_all
      · cases h

/-- The checks pass the parameters of the federation signature on. -/
theorem checkedInput_expires {lib : Library Key} {now : ℤ} {p : VerifyParams Key}
    {c : Checked Key} (h : checkedInput lib now p = .ok c) {input : ParsedSignatureInput}
    (hin : federationInput lib p.headers = .ok input) :
    input.expires = some c.expires ∧ inWindow now c.created c.expires = true ∧
      c.keyId = input.keyId.getD "" ∧ c.nonce = input.nonce.getD "" := by
  unfold checkedInput at h
  split at h
  · cases h
  · rw [hin] at h
    simp only at h
    split at h
    · split_ifs at h with h1 h2 h3 h4 h5
      split at h
      · cases h
      · cases h
        simp_all
    · cases h

/-- An accepted message has passed every check, and its nonce is held from then on. -/
theorem verifyMessage_ok {lib : Library Key} {s : InMemoryNonceStore} {t : ℤ}
    {p : VerifyParams Key} (h : (verifyMessage lib s t p).1.ok = true) :
    ∃ c restrictedHeaders, checkedInput lib (t / 1000) p = .ok c ∧
      restrictToLabel lib p.headers c.label = some restrictedHeaders ∧
      signatureVerifies lib p c restrictedHeaders = true ∧
      (verifyMessage lib s t p).2.entries.get (InMemoryNonceStore.key c.keyId c.nonce) =
        some (t + nonceTtlSec * 1000) := by
  unfold verifyMessage at h ⊢
  cases hc : checkedInput lib (t / 1000) p with
  | error reason => simp [hc, fail] at h
  | ok c =>
    simp only [hc] at h ⊢
    cases hused : (s.seen t c.keyId c.nonce).1 with
    | true => simp [hused, fail] at h
    | false =>
      simp only [hused, Bool.false_eq_true, if_false] at h ⊢
      cases hr : restrictToLabel lib p.headers c.label with
      | none => simp [hr, fail] at h
      | some restrictedHeaders =>
        simp only [hr] at h ⊢
        cases hv : signatureVerifies lib p c restrictedHeaders with
        | false => simp [hv, fail] at h
        | true =>
          simp only [hv, Bool.not_true, Bool.false_eq_true, if_false] at h ⊢
          cases hwon : ((s.seen t c.keyId c.nonce).2.reserve t c.keyId c.nonce nonceTtlSec).1 with
          | false => simp [hwon, fail] at h
          | true =>
            refine ⟨c, restrictedHeaders, rfl, hr, hv, ?_⟩
            simpa only [hwon, if_true] using InMemoryNonceStore.reserve_claims hwon

/-- A message that passes every check is accepted when its nonce is free. -/
theorem verifyMessage_of_free {lib : Library Key} {s : InMemoryNonceStore} {t : ℤ}
    {p : VerifyParams Key} {c : Checked Key} {restrictedHeaders : Headers}
    (hc : checkedInput lib (t / 1000) p = .ok c)
    (hr : restrictToLabel lib p.headers c.label = some restrictedHeaders)
    (hv : signatureVerifies lib p c restrictedHeaders = true)
    (hseen : (s.seen t c.keyId c.nonce).1 = false)
    (hfree : (s.seen t c.keyId c.nonce).2.entries.get (InMemoryNonceStore.key c.keyId c.nonce) =
      none) : (verifyMessage lib s t p).1.ok = true := by
  have hwon : ((s.seen t c.keyId c.nonce).2.reserve t c.keyId c.nonce nonceTtlSec).1 = true :=
    InMemoryNonceStore.reserve_of_absent hfree
  simp [verifyMessage, hc, hr, hv, hseen, hwon]

/-! ## Runs of verifications -/

/-- One verification of a run, at its clock time. -/
structure Call (Key : Type) where
  clock : ℤ
  params : VerifyParams Key

/-- The nonce store after a run of verifications. -/
def verifyAll (lib : Library Key) (s : InMemoryNonceStore) (calls : List (Call Key)) :
    InMemoryNonceStore :=
  calls.foldl (fun s call => (verifyMessage lib s call.clock call.params).2) s

/-- A verification before `limit` keeps every nonce that is held until then. -/
theorem verifyMessage_holds {lib : Library Key} {s : InMemoryNonceStore} {k : String}
    {limit t : ℤ} (h : s.Holds k limit) (ht : t < limit) (p : VerifyParams Key) :
    (verifyMessage lib s t p).2.Holds k limit := by
  unfold verifyMessage
  cases checkedInput lib (t / 1000) p with
  | error reason => exact h
  | ok c =>
    have hseen := InMemoryNonceStore.seen_holds h ht c.keyId c.nonce
    have hreserve := InMemoryNonceStore.reserve_holds hseen ht c.keyId c.nonce nonceTtlSec
    simp only
    split
    · exact hseen
    · split
      · exact hseen
      · split_ifs
        · exact hseen
        · exact hreserve
        · exact hreserve

/-- So does a run of verifications before `limit`. -/
theorem verifyAll_holds {lib : Library Key} {k : String} {limit : ℤ} {calls : List (Call Key)}
    (hcalls : ∀ call ∈ calls, call.clock < limit) {s : InMemoryNonceStore}
    (h : s.Holds k limit) : (verifyAll lib s calls).Holds k limit := by
  induction calls generalizing s with
  | nil => exact h
  | cons call calls ih =>
    have hcall := hcalls call (List.mem_cons_self ..)
    exact ih (fun c hc => hcalls c (List.mem_cons_of_mem _ hc))
      (verifyMessage_holds h hcall call.params)

/-- A message whose nonce is held, under its keyid, is refused. -/
theorem verifyMessage_of_holds {lib : Library Key} {s : InMemoryNonceStore} {t limit : ℤ}
    {p : VerifyParams Key} {input : ParsedSignatureInput}
    (hin : federationInput lib p.headers = .ok input)
    (h : s.Holds (InMemoryNonceStore.key (input.keyId.getD "") (input.nonce.getD "")) limit)
    (ht : t < limit) : (verifyMessage lib s t p).1.ok = false := by
  cases hc : checkedInput lib (t / 1000) p with
  | error reason => simp [verifyMessage, hc, fail]
  | ok c =>
    obtain ⟨-, -, hkey, hnonce⟩ := checkedInput_expires hc hin
    rw [← hkey, ← hnonce] at h
    simp [verifyMessage, hc, InMemoryNonceStore.seen_of_holds h ht, fail]

/-- A message past its window is refused. -/
theorem verifyMessage_of_expired {lib : Library Key} {s : InMemoryNonceStore} {t : ℤ}
    {p : VerifyParams Key} {input : ParsedSignatureInput} {expires : ℚ}
    (hin : federationInput lib p.headers = .ok input) (hexp : input.expires = some expires)
    (ht : expires < (t / 1000 : ℤ) - clockSkewSec) : (verifyMessage lib s t p).1.ok = false := by
  cases hc : checkedInput lib (t / 1000) p with
  | error reason => simp [verifyMessage, hc, fail]
  | ok c =>
    obtain ⟨hce, hwin, -, -⟩ := checkedInput_expires hc hin
    rw [hexp, Option.some_inj] at hce
    exact absurd (Iff.mp inWindow_iff hwin).2 (by rw [← hce]; exact not_le.mpr ht)

/-- **Replay of an accepted message.** Once accepted at `t`, a message is refused by every later
verification, whatever is verified in between and whoever resolves the key then, exactly when it
was accepted less than `expiresWindowSec` before its `expires`.

**Proof sketch.** The nonce is held until `t + nonceTtlSec`.  Before that instant every
verification keeps it held, so the message is seen; from that instant on, the message is past
its window when its `expires` is near enough.  Otherwise the message comes back at that very
instant: the nonce has just been forgotten and the window is still open. -/
theorem accepted_once_iff (lib : Library Key) (s : InMemoryNonceStore) (t : ℤ)
    (p : VerifyParams Key) {input : ParsedSignatureInput} {expires : ℚ}
    (hin : federationInput lib p.headers = .ok input) (hexp : input.expires = some expires)
    (hok : (verifyMessage lib s t p).1.ok = true) :
    (∀ (later : List (Call Key)) (t' : ℤ) (resolvePublicKey : String → Option Key),
        (t :: later.map Call.clock ++ [t']).Pairwise (· ≤ ·) →
        (verifyMessage lib (verifyAll lib (verifyMessage lib s t p).2 later) t'
          { p with resolvePublicKey := resolvePublicKey }).1.ok = false) ↔
      expires < (t / 1000 : ℤ) + expiresWindowSec := by
  obtain ⟨c, restrictedHeaders, hc, hr, hv, hget⟩ := verifyMessage_ok hok
  obtain ⟨hce, hwin, hkey, hnonce⟩ := checkedInput_expires hc hin
  rw [hexp, Option.some_inj] at hce
  subst hce
  have hsec : (t + nonceTtlSec * 1000) / 1000 = t / 1000 + nonceTtlSec :=
    Int.add_mul_ediv_right t nonceTtlSec (by decide)
  constructor
  · intro hrefused
    by_contra hlate
    have hopen : inWindow ((t + nonceTtlSec * 1000) / 1000) c.created c.expires = true := by
      rw [inWindow_iff] at hwin ⊢
      rw [hsec]
      simp only [nonceTtlSec, expiresWindowSec, clockSkewSec] at hwin hlate ⊢
      push_cast at hwin hlate ⊢
      exact ⟨by linarith [hwin.1], by linarith⟩
    have hc' : checkedInput lib ((t + nonceTtlSec * 1000) / 1000) p = .ok c := by
      rw [checkedInput_at hc, if_pos hopen]
    obtain ⟨hseen, hfree⟩ := InMemoryNonceStore.seen_of_expired hget le_rfl
    have hagain := verifyMessage_of_free hc' hr hv hseen hfree
    have hfail := hrefused [] (t + nonceTtlSec * 1000) p.resolvePublicKey
      (by simp [nonceTtlSec, expiresWindowSec, clockSkewSec])
    simp [verifyAll, hagain] at hfail
  · intro hnear later t' resolvePublicKey horder
    rw [List.cons_append, List.pairwise_cons, List.pairwise_append] at horder
    obtain ⟨-, -, -, hle⟩ := horder
    by_cases ht' : t' < t + nonceTtlSec * 1000
    · -- the nonce is still held
      have hheld : (verifyMessage lib s t p).2.Holds
          (InMemoryNonceStore.key (input.keyId.getD "") (input.nonce.getD ""))
          (t + nonceTtlSec * 1000) := by
        rw [← hkey, ← hnonce]
        exact ⟨_, hget, le_rfl⟩
      refine verifyMessage_of_holds hin (verifyAll_holds (fun call hcall => ?_) hheld) ht'
      have := hle call.clock (List.mem_map_of_mem hcall) t' (by simp)
      omega
    · -- the window has closed
      refine verifyMessage_of_expired hin hexp ?_
      have hmono : t / 1000 + nonceTtlSec ≤ t' / 1000 :=
        hsec ▸ Int.ediv_le_ediv (by decide) (not_lt.mp ht')
      have hmono' : ((t / 1000 : ℤ) : ℚ) + nonceTtlSec ≤ (t' / 1000 : ℤ) := by exact_mod_cast hmono
      simp only [nonceTtlSec, expiresWindowSec, clockSkewSec] at hmono' hnear ⊢
      push_cast at hmono' hnear ⊢
      linarith

/-! ## A message with the default lifetime -/

/-- A Signature-Input value of a message created at second 1000 that states `expires`. -/
def sampleSignatureInput (expires : String) : String :=
  "oc=(\"@method\" \"@target-uri\");created=1000;expires=" ++ expires ++
    ";keyid=\"z6Mk\";nonce=\"n1\";tag=\"openconditions-federation\""

/-- The dictionary such a value parses to. -/
def sampleDictionary (expires : ℚ) : Dictionary :=
  [("oc", .innerList ["@method", "@target-uri"]
    [("created", .number 1000), ("expires", .number expires), ("keyid", .string "z6Mk"),
      ("nonce", .string "n1"), ("tag", .string federationTag)])]

/-- The packages as they behave on two messages, of lifetimes 50 s and 60 s. -/
def sampleLibrary : Library Unit where
  parseDictionary text :=
    if text = sampleSignatureInput "1050" then .ok (sampleDictionary 1050)
    else if text = sampleSignatureInput "1060" then .ok (sampleDictionary 1060)
    else if text = "oc=:AQ==:" then .ok [("oc", .item (.bytes [1]))]
    else .error ()
  serializeDictionary dictionary :=
    if dictionary = sampleDictionary 1050 then sampleSignatureInput "1050"
    else if dictionary = sampleDictionary 1060 then sampleSignatureInput "1060"
    else "oc=:AQ==:"
  digest _ _ := []
  verifySignature lookup _ headers :=
    .ok (some ((lookup (some "z6Mk") (some federationTag)).isSome &&
      decide (("Signature", "oc=:AQ==:") ∈ headers)))

/-- A request without a body, signed under `z6Mk`. -/
def sampleMessage (expires : String) : VerifyParams Unit where
  method := "GET"
  url := "https://a.example/peer/outbox"
  status := none
  headers := [("Signature-Input", sampleSignatureInput expires), ("Signature", "oc=:AQ==:")]
  body := none
  isResponse := false
  resolvePublicKey keyId := if keyId = "z6Mk" then some () else none

/-- A store that holds no nonce. -/
def emptyStore : InMemoryNonceStore := ⟨4096, .empty⟩

/-- A message that lives 50 s is refused ever after its acceptance. -/
theorem accepted_once_iff_sample :
    (∀ (later : List (Call Unit)) (t' : ℤ) (resolvePublicKey : String → Option Unit),
        (1000000 :: later.map Call.clock ++ [t']).Pairwise (· ≤ ·) →
        (verifyMessage sampleLibrary
          (verifyAll sampleLibrary
            (verifyMessage sampleLibrary emptyStore 1000000 (sampleMessage "1050")).2 later) t'
          { sampleMessage "1050" with resolvePublicKey := resolvePublicKey }).1.ok = false) ↔
      (1050 : ℚ) < (1000000 / 1000 : ℤ) + expiresWindowSec :=
  accepted_once_iff sampleLibrary emptyStore 1000000 (sampleMessage "1050")
    (show federationInput sampleLibrary (sampleMessage "1050").headers = .ok
        { label := "oc", fields := ["@method", "@target-uri"], created := some 1000,
          expires := some 1050, keyId := some "z6Mk", nonce := some "n1",
          tag := some federationTag } by decide +kernel)
    rfl (by decide +kernel)

/-- A message of the default lifetime, accepted at its creation, is accepted again ninety
seconds later: its nonce is forgotten and its window still open. -/
theorem replay_accepted :
    (verifyMessage sampleLibrary emptyStore 1000000 (sampleMessage "1060")).1.ok = true ∧
      (verifyMessage sampleLibrary
        (verifyMessage sampleLibrary emptyStore 1000000 (sampleMessage "1060")).2 1090000
        (sampleMessage "1060")).1.ok = true := by
  decide +kernel

end OpenConditions.Federation

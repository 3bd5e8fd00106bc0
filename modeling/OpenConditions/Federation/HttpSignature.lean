import Mathlib.Data.Rat.Floor
import OpenConditions.Lib.OrderedMap

set_option relaxedAutoImplicit false
set_option autoImplicit false

/-!
# Verification of a federated HTTP message

The transport check of `packages/federation/src/http-signature.ts`: `verifyMessage` with its
replay policy, and the map-backed nonce store it claims a nonce in.  The structured-header
parser, the digest and the signature primitive come from packages outside the repository; they
are the fields of `Library`.

The clock is `Date.now()`, in milliseconds; `verifyMessage` reads it in whole seconds.

## Main definitions

* `InMemoryNonceStore` — the single-use nonces, each until its expiry, with the sweep on write.
* `ParsedSignatureInput`, `parseSignatureInputs` — the signatures a message declares.
* `checkedInput` — every check of a message that comes before its nonce is looked up.
* `verifyMessage` — the verdict on a message, and the nonce store it leaves.

## Implementation notes

A call reads the clock once: the nonce store and the window see the same instant.  The store has
the atomic `reserve`, so the non-atomic fallback of `reserveNonce` is never taken.
-/

namespace OpenConditions.Federation

/-! ## Protocol constants -/

/-- The `tag` parameter every federation signature carries. -/
def federationTag : String := "openconditions-federation"

/-- Default signature lifetime, in seconds. -/
def expiresWindowSec : ℤ := 60

/-- Tolerated clock skew between peers, in seconds. -/
def clockSkewSec : ℤ := 30

/-- How long a nonce is remembered, in seconds. -/
def nonceTtlSec : ℤ := expiresWindowSec + clockSkewSec

/-- Why a message is rejected. -/
inductive FederationFailureReason where
  | expired | replayed | badSignature | badDigest | unknownKey | missingNonce | tagMismatch
  | ambiguousSignature | insufficientCoverage
  deriving DecidableEq, Repr

/-! ## The nonce store -/

/-- The nonces in use, keyed by peer and nonce, each with the instant it is forgotten at. -/
structure InMemoryNonceStore where
  sweepAt : ℕ
  entries : OrderedMap String ℤ

namespace InMemoryNonceStore

/-- The map key of a peer's nonce. -/
def key (peerId nonce : String) : String := peerId ++ "\x00" ++ nonce

/-- Whether the peer used the nonce within its lifetime; an entry past it is dropped. -/
def seen (s : InMemoryNonceStore) (now : ℤ) (peerId nonce : String) : Bool × InMemoryNonceStore :=
  match s.entries.get (key peerId nonce) with
  | none => (false, s)
  | some expiresAt =>
    if expiresAt ≤ now then (false, { s with entries := s.entries.delete (key peerId nonce) })
    else (true, s)

/-- Drops every entry past its lifetime, once the store has grown to `sweepAt` entries. -/
def sweep (s : InMemoryNonceStore) (now : ℤ) : InMemoryNonceStore :=
  if s.entries.size < s.sweepAt then s
  else { s with entries := s.entries.filter fun e => !decide (e.2 ≤ now) }

/-- Claims the nonce unless an entry within its lifetime holds it. -/
def reserve (s : InMemoryNonceStore) (now : ℤ) (peerId nonce : String) (ttlSec : ℤ) :
    Bool × InMemoryNonceStore :=
  let claimed :=
    let swept := s.sweep now
    (true, { swept with entries := swept.entries.set (key peerId nonce) (now + ttlSec * 1000) })
  match s.entries.get (key peerId nonce) with
  | none => claimed
  | some expiresAt => if now < expiresAt then (false, s) else claimed

end InMemoryNonceStore

/-! ## Structured headers -/

/-- A bare item of a structured field, as far as the verifier tells them apart. -/
inductive BareItem where
  | string (s : String)
  | number (q : ℚ)
  | bytes (b : List UInt8)
  | other
  deriving DecidableEq

/-- A member of a structured dictionary: an item, or an inner list with its parameters. -/
inductive Member where
  | item (value : BareItem)
  | innerList (items : List String) (params : List (String × BareItem))
  deriving DecidableEq

/-- A structured dictionary, its members in order. -/
abbrev Dictionary := List (String × Member)

/-- Header names and values, in order. -/
abbrev Headers := List (String × String)

/-- The message a signature is reconstructed for. -/
inductive MessageTarget where
  | response (status : Option ℕ)
  | request (method url : String)
  deriving DecidableEq

/-- The packages the verifier calls: the structured-header parser and serializer, the digest,
and the signature library, which looks the key of a signature up by its `keyid` and `tag`. An
`error` is a throw. -/
structure Library (Key : Type) where
  parseDictionary : String → Except Unit Dictionary
  serializeDictionary : Dictionary → String
  digest : String → List UInt8 → List UInt8
  verifySignature :
    (Option String → Option String → Option Key) → MessageTarget → Headers →
      Except Unit (Option Bool)

/-- A message to verify. -/
structure VerifyParams (Key : Type) where
  method : String
  url : String
  status : Option ℕ
  headers : Headers
  body : Option (List UInt8)
  isResponse : Bool
  resolvePublicKey : String → Option Key

/-- The verdict on a message. -/
structure VerifyResult where
  ok : Bool
  keyId : Option String
  reason : Option FederationFailureReason
  deriving DecidableEq, Repr

/-- The value of the first header of a name, whatever its case. -/
def findHeader (headers : Headers) (name : String) : Option String :=
  (headers.find? fun h => h.1.toLower = name).map Prod.snd

variable {Key : Type}

/-- The digests the verifier computes, by their registered names. -/
def supportedDigests : String → Option String
  | "sha-256" => some "SHA-256"
  | "sha-512" => some "SHA-512"
  | _ => none

/-- The loop of `verifyContentDigest` over the members, with the number checked so far. -/
def verifyDigestMembers (lib : Library Key) (body : List UInt8) : Dictionary → ℕ → Bool
  | [], checked => decide (0 < checked)
  | (algorithm, member) :: rest, checked =>
    match supportedDigests algorithm with
    | none => verifyDigestMembers lib body rest checked
    | some webCryptoName =>
      match member with
      | .item (.bytes value) =>
        if lib.digest webCryptoName body = value then
          verifyDigestMembers lib body rest (checked + 1)
        else false
      | _ => false

/-- Whether a Content-Digest value matches the body. -/
def verifyContentDigest (lib : Library Key) (headerValue : String) (body : List UInt8) : Bool :=
  match lib.parseDictionary headerValue with
  | .error _ => false
  | .ok dictionary => verifyDigestMembers lib body dictionary 0

/-- The parameters of one declared signature. -/
structure ParsedSignatureInput where
  label : String
  fields : List String
  created : Option ℚ
  expires : Option ℚ
  keyId : Option String
  nonce : Option String
  tag : Option String
  deriving DecidableEq

/-- A parameter that is a string. -/
def strParam (params : List (String × BareItem)) (name : String) : Option String :=
  match params.lookup name with
  | some (.string s) => some s
  | _ => none

/-- A parameter that is a number. -/
def numParam (params : List (String × BareItem)) (name : String) : Option ℚ :=
  match params.lookup name with
  | some (.number q) => some q
  | _ => none

/-- The signatures a Signature-Input value declares; `none` when it does not parse. -/
def parseSignatureInputs (lib : Library Key) (headerValue : String) :
    Option (List ParsedSignatureInput) :=
  match lib.parseDictionary headerValue with
  | .error _ => none
  | .ok dictionary =>
    some (dictionary.filterMap fun (label, member) =>
      match member with
      | .item _ => none
      | .innerList items params =>
        some
          { label := label
            fields := items
            created := numParam params "created"
            expires := numParam params "expires"
            keyId := strParam params "keyid"
            nonce := strParam params "nonce"
            tag := strParam params "tag" })

/-- Whether the covered components bind the message. -/
def coversRequiredComponents (input : ParsedSignatureInput) (p : VerifyParams Key) : Bool :=
  if p.isResponse then input.fields.contains "@status"
  else if !input.fields.contains "@method" then false
  else if input.fields.contains "@target-uri" then true
  else
    input.fields.contains "@authority" && input.fields.contains "@path" &&
      input.fields.contains "@query"

/-- The headers with both signature dictionaries cut down to one label. -/
def restrictToLabel (lib : Library Key) (headers : Headers) (label : String) : Option Headers := do
  let (inputName, inputValue) ← headers.find? fun h => h.1.toLower = "signature-input"
  let (sigName, sigValue) ← headers.find? fun h => h.1.toLower = "signature"
  let inputDict ← (lib.parseDictionary inputValue).toOption
  let sigDict ← (lib.parseDictionary sigValue).toOption
  let inputEntry ← inputDict.lookup label
  let sigEntry ← sigDict.lookup label
  some (headers.map fun h =>
    if h.1 = sigName then (sigName, lib.serializeDictionary [(label, sigEntry)])
    else if h.1 = inputName then (inputName, lib.serializeDictionary [(label, inputEntry)])
    else h)

/-! ## The checks before the nonce -/

/-- Whether the message has a body with content. -/
def hasBody (p : VerifyParams Key) : Bool := p.body.any fun b => decide (0 < b.length)

/-- Whether the digest a message sends, or has to send, does not match its body. -/
def digestFails (lib : Library Key) (p : VerifyParams Key) : Bool :=
  match findHeader p.headers "content-digest" with
  | none => hasBody p
  | some value => !verifyContentDigest lib value (p.body.getD [])

/-- The one federation signature a message declares. -/
def federationInput (lib : Library Key) (headers : Headers) :
    Except FederationFailureReason ParsedSignatureInput :=
  match findHeader headers "signature-input", findHeader headers "signature" with
  | some signatureInputHeader, some _ =>
    match parseSignatureInputs lib signatureInputHeader with
    | none | some [] => .error .badSignature
    | some inputs =>
      match inputs.filter fun candidate => candidate.tag = some federationTag with
      | [] => .error .tagMismatch
      | [input] => .ok input
      | _ => .error .ambiguousSignature
  | _, _ => .error .badSignature

/-- Whether `now`, in seconds, lies in a signature's window, the skew tolerated on both sides. -/
def inWindow (now : ℤ) (created expires : ℚ) : Bool :=
  !decide (created > now + clockSkewSec) && !decide (expires < now - clockSkewSec)

/-- What a message that passes every check before its nonce is verified by. -/
structure Checked (Key : Type) where
  label : String
  keyId : String
  nonce : String
  created : ℚ
  expires : ℚ
  publicKey : Key

/-- The checks of a message that come before its nonce is looked up, at `now` in seconds. -/
def checkedInput (lib : Library Key) (now : ℤ) (p : VerifyParams Key) :
    Except FederationFailureReason (Checked Key) :=
  if digestFails lib p then .error .badDigest
  else
    match federationInput lib p.headers with
    | .error reason => .error reason
    | .ok input =>
      match input.created, input.expires with
      | some created, some expires =>
        if !inWindow now created expires then .error .expired
        else if input.nonce.getD "" = "" then .error .missingNonce
        else if input.keyId.getD "" = "" then .error .unknownKey
        else if !coversRequiredComponents input p then .error .insufficientCoverage
        else if hasBody p && !input.fields.contains "content-digest" then .error .badDigest
        else
          match p.resolvePublicKey (input.keyId.getD "") with
          | none => .error .unknownKey
          | some publicKey =>
            .ok
              { label := input.label
                keyId := input.keyId.getD ""
                nonce := input.nonce.getD ""
                created := created
                expires := expires
                publicKey := publicKey }
      | _, _ => .error .expired

/-! ## The verdict -/

/-- The key lookup the signature library is given: the checked key, under the checked `keyid`
and the federation tag only. -/
def keyLookup (c : Checked Key) (keyid tag : Option String) : Option Key :=
  if keyid = some c.keyId ∧ tag = some federationTag then some c.publicKey else none

/-- Whether the signature under the checked label verifies. -/
def signatureVerifies (lib : Library Key) (p : VerifyParams Key) (c : Checked Key)
    (restrictedHeaders : Headers) : Bool :=
  let target := if p.isResponse then .response p.status else .request p.method p.url
  match lib.verifySignature (keyLookup c) target restrictedHeaders with
  | .ok (some true) => true
  | _ => false

/-- A rejection. -/
def fail (reason : FederationFailureReason) : VerifyResult := ⟨false, none, some reason⟩

/-- Verifies a message at `clock` milliseconds, and claims its nonce when it is accepted. -/
def verifyMessage (lib : Library Key) (nonceStore : InMemoryNonceStore) (clock : ℤ)
    (p : VerifyParams Key) : VerifyResult × InMemoryNonceStore :=
  match checkedInput lib (clock / 1000) p with
  | .error reason => (fail reason, nonceStore)
  | .ok c =>
    let (used, nonceStore) := nonceStore.seen clock c.keyId c.nonce
    if used then (fail .replayed, nonceStore)
    else
      match restrictToLabel lib p.headers c.label with
      | none => (fail .badSignature, nonceStore)
      | some restrictedHeaders =>
        if !signatureVerifies lib p c restrictedHeaders then (fail .badSignature, nonceStore)
        -- The nonce is claimed only after the signature verifies.
        else
          let (won, nonceStore) := nonceStore.reserve clock c.keyId c.nonce nonceTtlSec
          if won then (⟨true, some c.keyId, none⟩, nonceStore)
          else (fail .replayed, nonceStore)

end OpenConditions.Federation

import OpenConditions.Federation.InstanceKeys
import OpenConditions.Lib.OrderedMap
import OpenConditions.Lib.Saturation

set_option relaxedAutoImplicit false
set_option autoImplicit false

/-!
# The keys that are trusted of a peer

The keys of a pinned peer that are trusted beyond its pins (`packages/federation/src/peer-keys.ts`):
a served key is trusted when it is pinned, was learned before, or is endorsed by a key trusted so,
the chain followed as far as the document goes.

## Main definitions

* `ActorDocument`, `PeerRecord` — what a peer serves, and what is pinned of it.
* `chainedActorKeys`, `trustedKeys`, `withLearnedKeys` — the keys that are trusted.
* `peerVersionsFromActor`, `refreshPeerCapabilities` — what is learned from a document.
* `Leads` — a key leads to another by endorsements.

## Main results

* `chainedActorKeys_sound`, `anchorsOf_endorsed` — the served keys that chain to trusted ones, and
  all of them.
* `trustedKeys_sound`, `trustedKeys_pin`, `trustedKeys_learned` — what is trusted.
-/

namespace OpenConditions.Federation

/-! ## Documents and records -/

/-- A key as a document serves it: what is no text, or no endorsement of texts, is absent. -/
structure ServedKey where
  publicKeyMultibase : Option String
  endorsement : Option KeyEndorsement
  deriving DecidableEq, Repr

/-- What is read of an actor document. -/
structure ActorDocument where
  id : Option String
  publicKey : List ServedKey
  /-- Why the two instances cannot federate, if so. -/
  refusal : Option String
  deriving DecidableEq, Repr

/-- What an instance pins of a peer. -/
structure PeerRecord where
  instanceId : String
  actorUrl : String
  trustTier : ℕ
  pinnedKeys : List String
  deriving DecidableEq, Repr

/-- Trusted keys of one peer, each with the configured pin it leads back to. -/
abbrev KeyAnchors := OrderedMap String String

/-! ## Chained keys -/

/-- A served key takes on the anchor of the key that endorses it, if it has none yet. -/
def anchorKey (σ : Signatures) (instanceId : String) (anchors : KeyAnchors) (key : ServedKey) :
    Option KeyAnchors :=
  key.publicKeyMultibase.bind fun keyId =>
    if anchors.has keyId then none
    else
      key.endorsement.bind fun endorsement =>
        (anchors.get endorsement.by_).bind fun anchor =>
          if verifyEndorsement σ instanceId keyId endorsement then some (anchors.set keyId anchor)
          else none

/-- The trusted keys with the served ones that chain to them: pass after pass over the document,
until one finds nothing more. -/
def anchorsOf (σ : Signatures) (served : List ServedKey) (instanceId : String)
    (trusted : KeyAnchors) : KeyAnchors :=
  Saturation.saturate (anchorKey σ instanceId) served (served.length + 1) trusted

/-- A served key and its anchor, if it has one. -/
def anchored (anchors : KeyAnchors) (key : ServedKey) : Option (String × String) :=
  key.publicKeyMultibase.bind fun keyId => (anchors.get keyId).map (Prod.mk keyId)

/-- The served keys that chain to trusted ones, in served order with their anchors. -/
def chainedActorKeys (σ : Signatures) (served : List ServedKey) (instanceId : String)
    (trusted : KeyAnchors) : KeyAnchors :=
  (served.filterMap (anchored (anchorsOf σ served instanceId trusted))).foldl
    (fun chained e => chained.set e.1 e.2) .empty

/-! ## Trusted keys -/

/-- A learned key is trusted while its anchor is. -/
def trustLearned (keys : KeyAnchors) (learned : String × String) : KeyAnchors :=
  if keys.has learned.2 && !keys.has learned.1 then keys.set learned.1 learned.2 else keys

/-- The keys a peer is trusted under: its pins, and the learned ones whose anchor is pinned. -/
def trustedKeys (peer : PeerRecord) (learned : KeyAnchors) : KeyAnchors :=
  learned.entries.foldl trustLearned
    (peer.pinnedKeys.foldl (fun keys pin => keys.set pin pin) .empty)

/-- The peer trusting its learned keys beside its pins. -/
def withLearnedKeys (peer : PeerRecord) (learned : KeyAnchors) : PeerRecord :=
  let keys := (trustedKeys peer learned).keys
  if keys.length = peer.pinnedKeys.length then peer else { peer with pinnedKeys := keys }

/-! ## Learning -/

/-- The pinned keys that a document serves, where it is the pinned peer's own. -/
def verifyActorAgainstPin (actor : ActorDocument) (peer : PeerRecord) :
    Except String (List String) :=
  let named := "\"" ++ peer.instanceId ++ "\""
  if peer.pinnedKeys.isEmpty then
    .error ("peer record for " ++ named ++ " pins no keys; nothing can anchor trust")
  else if actor.id ≠ some peer.actorUrl then
    .error ("actor id \"" ++ actor.id.getD "undefined" ++ "\" does not match the pinned actorUrl \"" ++
      peer.actorUrl ++ "\"")
  else if actor.publicKey.isEmpty then
    .error ("actor document for " ++ named ++ " serves no public keys")
  else
    let matchedKeys := (actor.publicKey.filterMap ServedKey.publicKeyMultibase).filter fun keyId =>
      decide (keyId ∈ peer.pinnedKeys)
    if matchedKeys.isEmpty then
      .error ("actor for " ++ named ++ " serves only unpinned keys " ++
        "(possible key substitution or rollback); pinned: " ++ ", ".intercalate peer.pinnedKeys)
    else .ok matchedKeys

/-- The served keys that chain to the peer's pins, once a document is the pinned peer's own and the
two instances can federate at all. -/
def peerVersionsFromActor (σ : Signatures) (actor : ActorDocument) (peer : PeerRecord)
    (learned : KeyAnchors) : Except String KeyAnchors :=
  let keys := chainedActorKeys σ actor.publicKey peer.instanceId (trustedKeys peer learned)
  let pinnedKeys := if 0 < keys.size then keys.keys else peer.pinnedKeys
  match verifyActorAgainstPin actor { peer with pinnedKeys := pinnedKeys } with
  | .error reason => .error reason
  | .ok _ =>
    match actor.refusal with
    | some reason => .error reason
    | none => .ok keys

/-- Every peer's learned keys. -/
abbrev LearnedKeys := String → KeyAnchors

/-- Replaces a peer's learned keys. -/
def storeLearnedKeys (t : LearnedKeys) (peerInstanceId : String) (keys : KeyAnchors) :
    LearnedKeys := fun id => if id = peerInstanceId then keys else t id

/-- Keeps the keys beyond a peer's pins that a fetched document serves chained to them; a document
that fails leaves them as they were. -/
def refreshPeerCapabilities (σ : Signatures) (t : LearnedKeys) (peer : PeerRecord)
    (learned : KeyAnchors) (fetched : Except String ActorDocument) :
    LearnedKeys × Except String KeyAnchors :=
  match fetched with
  | .error reason => (t, .error reason)
  | .ok actor =>
    match peerVersionsFromActor σ actor peer learned with
    | .error reason => (t, .error reason)
    | .ok keys =>
      (storeLearnedKeys t peer.instanceId
        (keys.filter fun e => decide (e.1 ∉ peer.pinnedKeys)), .ok keys)

/-! ## Chains of endorsements -/

/-- A key endorses another as the instance's. -/
def Endorses (σ : Signatures) (instanceId a k : String) : Prop :=
  ∃ endorsement : KeyEndorsement, endorsement.by_ = a ∧
    verifyEndorsement σ instanceId k endorsement = true

/-- A key leads to another by endorsements. -/
def Leads (σ : Signatures) (instanceId : String) : String → String → Prop :=
  Relation.ReflTransGen (Endorses σ instanceId)

section Chained

variable {σ : Signatures} {instanceId : String} {served : List ServedKey}
  {anchors trusted : KeyAnchors}

/-- A key that is anchored by a document is served, new, and endorsed by an anchored one. -/
theorem anchorKey_eq_some {anchors' : KeyAnchors} {key : ServedKey} :
    anchorKey σ instanceId anchors key = some anchors' ↔
      ∃ keyId endorsement anchor, key.publicKeyMultibase = some keyId ∧
        key.endorsement = some endorsement ∧ anchors.get keyId = none ∧
          anchors.get endorsement.by_ = some anchor ∧
            verifyEndorsement σ instanceId keyId endorsement = true ∧
              anchors' = anchors.set keyId anchor := by
  unfold anchorKey
  constructor
  · intro h
    obtain ⟨keyId, hid, h⟩ := Option.bind_eq_some_iff.mp h
    split_ifs at h with hhas
    obtain ⟨endorsement, hendorsement, h⟩ := Option.bind_eq_some_iff.mp h
    obtain ⟨anchor, hanchor, h⟩ := Option.bind_eq_some_iff.mp h
    split_ifs at h with hverified
    refine ⟨keyId, endorsement, anchor, hid, hendorsement, ?_, hanchor, hverified,
      (Option.some.inj h).symm⟩
    simpa [OrderedMap.has] using hhas
  · rintro ⟨keyId, endorsement, anchor, hid, hendorsement, hnew, hanchor, hverified, rfl⟩
    simp [hid, hendorsement, OrderedMap.has, hnew, hanchor, hverified]

/-- Anchored keys keep their anchors. -/
theorem anchorsOf_mono {k a : String} (h : trusted.get k = some a) :
    (anchorsOf σ served instanceId trusted).get k = some a := by
  unfold anchorsOf
  refine Saturation.saturate_invariant (I := fun m : KeyAnchors => m.get k = some a)
    (fun m key _ m' hm hadd => ?_) _ h
  obtain ⟨keyId, -, anchor, -, -, hnew, -, -, rfl⟩ := Iff.mp anchorKey_eq_some hadd
  have hne : k ≠ keyId := by
    rintro rfl
    rw [hm] at hnew
    cases hnew
  rw [OrderedMap.get_set_of_ne _ _ hne]
  exact hm

/-- What holds of trusted keys and is handed on by served endorsements holds of every anchored
key. -/
theorem anchorsOf_sound {P : String → String → Prop}
    (htrusted : ∀ k a, trusted.get k = some a → P k a)
    (hserved : ∀ key ∈ served, ∀ k endorsement a, key.publicKeyMultibase = some k →
      key.endorsement = some endorsement → verifyEndorsement σ instanceId k endorsement = true →
        P endorsement.by_ a → P k a) :
    ∀ k a, (anchorsOf σ served instanceId trusted).get k = some a → P k a := by
  unfold anchorsOf
  refine Saturation.saturate_invariant (I := fun m : KeyAnchors => ∀ k a, m.get k = some a → P k a)
    (fun m key hkey m' hm hadd => ?_) _ htrusted
  obtain ⟨keyId, endorsement, anchor, hid, hendorsement, -, hanchor, hverified, rfl⟩ :=
    Iff.mp anchorKey_eq_some hadd
  intro k a hget
  rw [OrderedMap.get_set] at hget
  split_ifs at hget with hk
  · obtain rfl := Option.some.inj hget
    rw [hk]
    exact hserved key hkey keyId endorsement anchor hid hendorsement hverified (hm _ _ hanchor)
  · exact hm k a hget

/-- The served keys that are not anchored. -/
def unanchored (served : List ServedKey) (anchors : KeyAnchors) : List ServedKey :=
  served.filter fun key => key.publicKeyMultibase.any fun keyId => !anchors.has keyId

/-- Anchoring a served key leaves fewer that are not. -/
theorem unanchored_lt {anchors' : KeyAnchors} {key : ServedKey} (hkey : key ∈ served)
    (h : anchorKey σ instanceId anchors key = some anchors') :
    (unanchored served anchors').length < (unanchored served anchors).length := by
  obtain ⟨keyId, -, anchor, hid, -, hnew, -, -, rfl⟩ := Iff.mp anchorKey_eq_some h
  have hsub : ∀ k, (!(anchors.set keyId anchor).has k) = true → (!anchors.has k) = true := by
    intro k hk
    rw [OrderedMap.has, OrderedMap.get_set] at hk
    split_ifs at hk with heq
    · cases hk
    · exact hk
  have hsublist : unanchored served (anchors.set keyId anchor) =
      (unanchored served anchors).filter fun key =>
        key.publicKeyMultibase.any fun k => !(anchors.set keyId anchor).has k := by
    unfold unanchored
    rw [List.filter_filter]
    refine List.filter_congr fun key _ => ?_
    cases key.publicKeyMultibase with
    | none => rfl
    | some k =>
      simp only [Option.any_some]
      cases hk : !(anchors.set keyId anchor).has k with
      | false => rfl
      | true => rw [hsub k hk, Bool.true_and]
  rw [hsublist]
  refine List.length_filter_lt_length_iff_exists.mpr ⟨key, ?_, ?_⟩
  · refine List.mem_filter.mpr ⟨hkey, ?_⟩
    simp [hid, OrderedMap.has, hnew]
  · simp [hid, OrderedMap.has]

/-- **The chain is followed as far as the document goes**: a served key that an anchored one endorses
is anchored. -/
theorem anchorsOf_endorsed {key : ServedKey} {k : String} {endorsement : KeyEndorsement}
    (hkey : key ∈ served) (hid : key.publicKeyMultibase = some k)
    (hendorsement : key.endorsement = some endorsement)
    (hverified : verifyEndorsement σ instanceId k endorsement = true) {a : String}
    (hby : (anchorsOf σ served instanceId trusted).get endorsement.by_ = some a) :
    ∃ a', (anchorsOf σ served instanceId trusted).get k = some a' := by
  have hfuel : (unanchored served trusted).length < served.length + 1 :=
    Nat.lt_succ_of_le (List.length_filter_le ..)
  have hcomplete : anchorKey σ instanceId (anchorsOf σ served instanceId trusted) key = none :=
    Saturation.saturate_complete (μ := fun anchors => (unanchored served anchors).length)
      (fun _ _ hmem _ hadd => unanchored_lt hmem hadd) hfuel key hkey
  cases hget : (anchorsOf σ served instanceId trusted).get k with
  | some a' => exact ⟨a', rfl⟩
  | none =>
    have hadds := Iff.mpr anchorKey_eq_some
      ⟨k, endorsement, a, hid, hendorsement, hget, hby, hverified, rfl⟩
    rw [hcomplete] at hadds
    cases hadds

/-- The chained keys are the anchored ones that are served. -/
theorem get_chainedActorKeys {k a : String} :
    (chainedActorKeys σ served instanceId trusted).get k = some a ↔
      (anchorsOf σ served instanceId trusted).get k = some a ∧
        ∃ key ∈ served, key.publicKeyMultibase = some k := by
  have hentry : ∀ e : String × String,
      e ∈ served.filterMap (anchored (anchorsOf σ served instanceId trusted)) ↔
        (anchorsOf σ served instanceId trusted).get e.1 = some e.2 ∧
          ∃ key ∈ served, key.publicKeyMultibase = some e.1 := by
    intro e
    rw [List.mem_filterMap]
    constructor
    · rintro ⟨key, hkey, h⟩
      obtain ⟨keyId, hid, h⟩ := Option.bind_eq_some_iff.mp h
      obtain ⟨anchor, hanchor, rfl⟩ := Option.map_eq_some_iff.mp h
      exact ⟨hanchor, key, hkey, hid⟩
    · rintro ⟨hanchor, key, hkey, hid⟩
      refine ⟨key, hkey, ?_⟩
      unfold anchored
      rw [hid, Option.bind_some, hanchor]
      rfl
  unfold chainedActorKeys
  by_cases hserved : k ∈ (served.filterMap
      (anchored (anchorsOf σ served instanceId trusted))).map Prod.fst
  · obtain ⟨w, hw, hanchor⟩ := OrderedMap.get_foldl_set_of_mem
      (P := fun w => (anchorsOf σ served instanceId trusted).get k = some w) hserved
      OrderedMap.empty (v := fun _ e => e.2)
      (fun _ e he hk => hk ▸ ((hentry e).mp he).1)
    obtain ⟨e, he, rfl⟩ := List.mem_map.mp hserved
    rw [hw, hanchor]
    exact ⟨fun h => ⟨h, ((hentry e).mp he).2⟩, fun h => h.1⟩
  · rw [OrderedMap.get_foldl_set_of_not_mem hserved (v := fun _ e => e.2), OrderedMap.get_empty]
    constructor
    · intro h
      cases h
    · intro h
      exact absurd (List.mem_map_of_mem ((hentry (k, a)).mpr h)) hserved

/-- What holds of trusted keys and is handed on by served endorsements holds of every chained key. -/
theorem chainedActorKeys_sound {P : String → String → Prop}
    (htrusted : ∀ k a, trusted.get k = some a → P k a)
    (hserved : ∀ key ∈ served, ∀ k endorsement a, key.publicKeyMultibase = some k →
      key.endorsement = some endorsement → verifyEndorsement σ instanceId k endorsement = true →
        P endorsement.by_ a → P k a) {k a : String}
    (h : (chainedActorKeys σ served instanceId trusted).get k = some a) : P k a :=
  anchorsOf_sound htrusted hserved k a (Iff.mp get_chainedActorKeys h).1

end Chained

/-! ## Trusted keys -/

section Trusted

variable {peer : PeerRecord} {learned keys : KeyAnchors}

/-- The pins are trusted, each as its own anchor, and nothing else is at first. -/
theorem get_pins {pins : List String} {k a : String} :
    (pins.foldl (fun keys pin => keys.set pin pin) (OrderedMap.empty : KeyAnchors)).get k = some a ↔
      k ∈ pins ∧ a = k := by
  by_cases hk : k ∈ pins.map id
  · obtain ⟨w, hw, rfl⟩ := OrderedMap.get_foldl_set_of_mem (k := id) (v := fun _ pin => pin)
      (P := fun w => w = k) hk OrderedMap.empty (fun _ c _ hc => hc)
    rw [List.map_id] at hk
    simp only [id_eq] at hw
    rw [hw]
    exact ⟨fun h => ⟨hk, (Option.some.inj h).symm⟩, fun h => congrArg some h.2.symm⟩
  · have hget := OrderedMap.get_foldl_set_of_not_mem (k := id) (v := fun _ pin => pin) hk
      (OrderedMap.empty : KeyAnchors)
    rw [List.map_id] at hk
    simp only [id_eq] at hget
    rw [hget]
    exact ⟨fun h => absurd h (by simp), fun h => absurd h.1 hk⟩

/-- Learning keeps the anchors. -/
theorem trustLearned_mono {e : String × String} {k a : String} (h : keys.get k = some a) :
    (trustLearned keys e).get k = some a := by
  unfold trustLearned
  split_ifs with hadds
  · have hne : k ≠ e.1 := by
      rintro rfl
      simp [OrderedMap.has, h] at hadds
    rw [OrderedMap.get_set_of_ne _ _ hne]
    exact h
  · exact h

/-- Learning keeps the anchors. -/
theorem foldl_trustLearned_mono {es : List (String × String)} {k a : String}
    (h : keys.get k = some a) : (es.foldl trustLearned keys).get k = some a := by
  induction es generalizing keys with
  | nil => exact h
  | cons e es ih => exact ih (trustLearned_mono h)

/-- What is trusted was trusted before, or is learned under an anchor that is trusted. -/
theorem foldl_trustLearned_sound {P : String → String → Prop} {es : List (String × String)}
    (hkeys : ∀ k a, keys.get k = some a → P k a)
    (hes : ∀ e ∈ es, (∃ a, P e.2 a) → P e.1 e.2) :
    ∀ k a, (es.foldl trustLearned keys).get k = some a → P k a := by
  induction es generalizing keys with
  | nil => exact hkeys
  | cons e es ih =>
    refine ih (fun k a hget => ?_) fun e' he' => hes e' (List.mem_cons_of_mem _ he')
    unfold trustLearned at hget
    split_ifs at hget with hadds
    · rw [OrderedMap.get_set] at hget
      split_ifs at hget with hk
      · obtain rfl := Option.some.inj hget
        rw [Bool.and_eq_true] at hadds
        obtain ⟨a, ha⟩ := Option.isSome_iff_exists.mp hadds.1
        exact hk ▸ hes e (List.mem_cons_self ..) ⟨a, hkeys _ _ ha⟩
      · exact hkeys k a hget
    · exact hkeys k a hget

/-- A learned key is trusted under its anchor, where that is trusted and the key is not yet. -/
theorem foldl_trustLearned_learned {es : List (String × String)} (hes : (es.map Prod.fst).Nodup)
    {k a : String} (hmem : (k, a) ∈ es) (hanchor : ∃ w, keys.get a = some w)
    (hnew : keys.get k = none) : (es.foldl trustLearned keys).get k = some a := by
  induction es generalizing keys with
  | nil => cases hmem
  | cons e es ih =>
    rw [List.map_cons, List.nodup_cons] at hes
    obtain ⟨w, hw⟩ := hanchor
    rcases List.mem_cons.mp hmem with rfl | hmem
    · have hadded : (trustLearned keys (k, a)).get k = some a := by
        unfold trustLearned
        rw [if_pos (by simp [OrderedMap.has, hw, hnew])]
        exact OrderedMap.get_set_self ..
      exact @foldl_trustLearned_mono (trustLearned keys (k, a)) es k a hadded
    · refine ih hes.2 hmem ⟨w, trustLearned_mono hw⟩ ?_
      have hne : k ≠ e.1 := fun hk => hes.1 (hk ▸ List.mem_map_of_mem (f := Prod.fst) hmem)
      unfold trustLearned
      split_ifs
      · rw [OrderedMap.get_set_of_ne _ _ hne]
        exact hnew
      · exact hnew

/-- What holds of the pins, and of each learned key whose anchor it holds of, holds of every trusted
key. -/
theorem trustedKeys_sound {P : String → String → Prop} (hpins : ∀ pin ∈ peer.pinnedKeys, P pin pin)
    (hlearned : ∀ k a, learned.get k = some a → (∃ b, P a b) → P k a) :
    ∀ k a, (trustedKeys peer learned).get k = some a → P k a := by
  refine foldl_trustLearned_sound (fun k a hget => ?_) fun e he =>
    hlearned e.1 e.2 ((OrderedMap.get_eq_some_iff learned).mpr he)
  obtain ⟨hk, rfl⟩ := Iff.mp get_pins hget
  exact hpins _ hk

/-- The pins are trusted. -/
theorem trustedKeys_pin {pin : String} (hpin : pin ∈ peer.pinnedKeys) :
    (trustedKeys peer learned).get pin = some pin :=
  foldl_trustLearned_mono (Iff.mpr get_pins ⟨hpin, rfl⟩)

/-- A learned key whose anchor is pinned is trusted. -/
theorem trustedKeys_learned {k a : String} (hlearned : learned.get k = some a)
    (hanchor : a ∈ peer.pinnedKeys) (hk : k ∉ peer.pinnedKeys) :
    (trustedKeys peer learned).get k = some a := by
  refine foldl_trustLearned_learned learned.nodup ((OrderedMap.get_eq_some_iff _).mp hlearned)
    ⟨a, Iff.mpr get_pins ⟨hanchor, rfl⟩⟩ ?_
  cases hget : (peer.pinnedKeys.foldl (fun keys pin => keys.set pin pin)
      (OrderedMap.empty : KeyAnchors)).get k with
  | none => rfl
  | some w => exact absurd (Iff.mp get_pins hget).1 hk

/-- A key that has an anchor is one of the keys. -/
theorem mem_keys_iff {k : String} : k ∈ keys.keys ↔ ∃ a, keys.get k = some a := by
  unfold OrderedMap.keys
  simp only [OrderedMap.get_eq_some_iff, List.mem_map]
  constructor
  · rintro ⟨e, he, rfl⟩
    exact ⟨e.2, he⟩
  · rintro ⟨a, ha⟩
    exact ⟨(k, a), ha, rfl⟩

/-- A peer trusts the trusted keys only. -/
theorem mem_withLearnedKeys {k : String} (h : k ∈ (withLearnedKeys peer learned).pinnedKeys) :
    ∃ a, (trustedKeys peer learned).get k = some a := by
  unfold withLearnedKeys at h
  dsimp only at h
  split_ifs at h
  · exact ⟨k, trustedKeys_pin h⟩
  · exact Iff.mp mem_keys_iff h

/-- A peer whose pins are all different trusts all the trusted keys. -/
theorem mem_withLearnedKeys_of_nodup (hpins : peer.pinnedKeys.Nodup) {k a : String}
    (h : (trustedKeys peer learned).get k = some a) :
    k ∈ (withLearnedKeys peer learned).pinnedKeys := by
  have hk := Iff.mpr mem_keys_iff ⟨a, h⟩
  unfold withLearnedKeys
  dsimp only
  split_ifs with hlength
  · have hsub : peer.pinnedKeys.Subperm (trustedKeys peer learned).keys :=
      hpins.subperm fun pin hpin => Iff.mpr mem_keys_iff ⟨pin, trustedKeys_pin hpin⟩
    exact (hsub.perm_of_length_le hlength.le).mem_iff.mpr hk
  · exact hk

/-- The rest of a peer's record stays. -/
theorem withLearnedKeys_spec (peer : PeerRecord) (learned : KeyAnchors) :
    (withLearnedKeys peer learned).instanceId = peer.instanceId ∧
      (withLearnedKeys peer learned).actorUrl = peer.actorUrl ∧
        (withLearnedKeys peer learned).trustTier = peer.trustTier := by
  unfold withLearnedKeys
  dsimp only
  split_ifs
  · exact ⟨rfl, rfl, rfl⟩
  · exact ⟨rfl, rfl, rfl⟩

end Trusted

/-! ## Learning from a document -/

section Learning

variable {σ : Signatures} {peer : PeerRecord} {learned : KeyAnchors}

/-- A document of which something is learned chains to the peer's trusted keys. -/
theorem peerVersionsFromActor_ok {actor : ActorDocument} {keys : KeyAnchors}
    (h : peerVersionsFromActor σ actor peer learned = .ok keys) :
    keys = chainedActorKeys σ actor.publicKey peer.instanceId (trustedKeys peer learned) := by
  unfold peerVersionsFromActor at h
  dsimp only at h
  split at h
  · cases h
  · split at h
    · cases h
    · exact (Except.ok.inj h).symm

/-- **A fetched document fails and leaves the learned keys as they were, or replaces the peer's by the
ones it serves chained to its trusted keys**, without its pins. -/
theorem refreshPeerCapabilities_spec (σ : Signatures) (peer : PeerRecord) (learned : KeyAnchors)
    (t : LearnedKeys) (fetched : Except String ActorDocument) :
    ((∃ reason, (refreshPeerCapabilities σ t peer learned fetched).2 = .error reason) ∧
        (refreshPeerCapabilities σ t peer learned fetched).1 = t) ∨
      ∃ actor keys, fetched = .ok actor ∧
        (refreshPeerCapabilities σ t peer learned fetched).2 = .ok keys ∧
        (refreshPeerCapabilities σ t peer learned fetched).1 =
          storeLearnedKeys t peer.instanceId
            ((chainedActorKeys σ actor.publicKey peer.instanceId (trustedKeys peer learned)).filter
              fun e => decide (e.1 ∉ peer.pinnedKeys)) := by
  unfold refreshPeerCapabilities
  cases fetched with
  | error reason => exact Or.inl ⟨⟨reason, rfl⟩, rfl⟩
  | ok actor =>
    dsimp only
    cases hversions : peerVersionsFromActor σ actor peer learned with
    | error reason => exact Or.inl ⟨⟨reason, rfl⟩, rfl⟩
    | ok keys =>
      refine Or.inr ⟨actor, keys, rfl, rfl, ?_⟩
      rw [peerVersionsFromActor_ok hversions]

/-- What is stored for the peer is chained, and what is stored for others stays. -/
theorem get_storeLearnedKeys {t : LearnedKeys} {id instanceId : String} {keys : KeyAnchors}
    {pins : List String} {k : String} :
    (storeLearnedKeys t instanceId (keys.filter fun e => decide (e.1 ∉ pins)) id).get k =
      if id = instanceId then if k ∈ pins then none else keys.get k else (t id).get k := by
  unfold storeLearnedKeys
  split_ifs with hid hk
  · rw [OrderedMap.get_filter]
    cases keys.get k <;> simp [hk]
  · rw [OrderedMap.get_filter]
    cases keys.get k <;> simp [hk]
  · rfl

end Learning

end OpenConditions.Federation

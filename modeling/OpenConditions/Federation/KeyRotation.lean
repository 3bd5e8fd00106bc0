import OpenConditions.Federation.PeerBook

set_option relaxedAutoImplicit false
set_option autoImplicit false

/-!
# Following a rotation

An instance that rotates its keys and a peer that follows it: the instance looks after its keys,
rotates them when it likes and serves its document; the peer's book pins the instance's first key and
reads the document now and then, among the documents of its other peers.

## Main definitions

* `Federated`, `rotationStep` — the two of them.
* `Kept` — the keys are looked after within the rotation lead, the book's keys are from a document
  served within the publication lead, and signatures are not forged.
* `Follows` — what is kept of the keys, the documents and the book.

## Main results

* `Knows.learn` — a document hands on to every key that it serves.
* `signingKey_trusted_runs` — the key that the instance signs with is trusted by the peer throughout.
-/

namespace OpenConditions.Federation

/-! ## The instance and the peer -/

/-- An instance's name. -/
structure Identity where
  instanceId : String
  actorUrl : String
  deriving DecidableEq, Repr

/-- A key as it is served. -/
def InstanceKey.served (k : InstanceKey) : ServedKey := ⟨some k.keyId, k.endorsement⟩

/-- The document that an instance serves; one without a valid key is refused. -/
def buildActorDocument (a : Identity) (activeKeys : List InstanceKey) (refusal : Option String) :
    Except String ActorDocument :=
  if activeKeys.isEmpty then
    .error "cannot build an actor document without an active instance key"
  else .ok ⟨some a.actorUrl, activeKeys.map InstanceKey.served, refusal⟩

/-- The keys valid now, rotating first when none is. -/
def activeKeys (σ : Signatures) (t : List InstanceKey) (fresh : String) (now : ℤ)
    (instanceId : String) : List InstanceKey × List InstanceKey :=
  let keys := loadActiveKeys t now
  if keys.isEmpty then
    let t' := (maintainInstanceKey σ t fresh now instanceId).1
    (t', loadActiveKeys t' now)
  else (t, keys)

/-- An instance and a peer of it. -/
structure Federated where
  keys : List InstanceKey
  now : ℤ
  /-- When the keys were last looked after. -/
  maintained : ℤ
  site : Local
  /-- What was served since the peer last asked for a document, and when. -/
  flight : Option (ActorDocument × ℤ)
  /-- When the document was served that the stored keys of the instance are from. -/
  storedFrom : ℤ
  /-- When the document was served that the keys of the instance in the book are from. -/
  readFrom : ℤ

/-- What happens between an instance and a peer. -/
inductive RotationOp where
  | tick (now : ℤ)
  | maintain (fresh : String)
  | rotate (fresh : String)
  | serve (fresh : String) (refusal : Option String)
  | book (op : BookOp)

/-- When the document was served that the stored keys are from, once an answer is in. -/
def servedAt (σ : Signatures) (a : Identity) (s : Federated)
    (fetched : Except String ActorDocument) : ℤ :=
  match s.site.upkeep.bind Upkeep.asked, s.flight with
  | some (peer, learned), some (_, at_) =>
    if peer.instanceId = a.instanceId then
      match (refreshPeerCapabilities σ s.site.learned peer learned fetched).2 with
      | .ok _ => at_
      | .error _ => s.storedFrom
    else s.storedFrom
  | _, _ => s.storedFrom

/-- What happens to the two of them. -/
def rotationStep (σ : Signatures) (a : Identity) (s : Federated) : RotationOp → Option Federated
  | .tick now => if s.now ≤ now then some { s with now := now } else none
  | .maintain fresh =>
    some { s with
      keys := (maintainInstanceKey σ s.keys fresh s.now a.instanceId).1
      maintained := s.now }
  | .rotate fresh =>
    some { s with
      keys := (rotateIn σ s.keys fresh s.now a.instanceId instanceKeyValidityMonths).1 }
  | .serve fresh refusal =>
    let active := activeKeys σ s.keys fresh s.now a.instanceId
    match buildActorDocument a active.2 refusal with
    | .ok actor => some { s with keys := active.1, flight := some (actor, s.now) }
    | .error _ => some { s with keys := active.1 }
  | .book op =>
    (bookStep σ s.site op).map fun site =>
      match op with
      | .ask => { s with site := site, flight := none }
      | .answer fetched => { s with site := site, storedFrom := servedAt σ a s fetched }
      | .restart _ => { s with site := site, readFrom := s.storedFrom }
      | .finish => { s with site := site, readFrom := s.storedFrom }
      | .discover _ _ => { s with site := site }
      | .start => { s with site := site }

/-! ## What is promised -/

/-- Of the instance's keys a record pins the first one only, and only as the instance's. -/
def PinsFirst (a : Identity) (own : String → Prop) (first : String) (p : PeerRecord) : Prop :=
  ∀ pin ∈ p.pinnedKeys, own pin → p.instanceId = a.instanceId ∧ pin = first

/-- The operator pins the instance's first key, once. -/
structure Configures (a : Identity) (own : String → Prop) (first : String)
    (configured : ConfiguredPeers) : Prop where
  pins : ∃ c ∈ configured.records, c.instanceId = a.instanceId ∧ first ∈ c.pinnedKeys ∧
    c.pinnedKeys.Nodup
  others : ∀ c ∈ configured.records, PinsFirst a own first c

/-- No key of the instance is served with a proof that verifies for another instance. -/
def Unforged (σ : Signatures) (own : String → Prop) (instanceId : String) (actor : ActorDocument) :
    Prop :=
  ∀ key ∈ actor.publicKey, ∀ k endorsement, key.publicKeyMultibase = some k →
    key.endorsement = some endorsement → own k →
      verifyEndorsement σ instanceId k endorsement = false

/-- A new key is one of the instance's, and new. -/
def Fresh (own : String → Prop) (keys : List InstanceKey) (fresh : String) : Prop :=
  own fresh ∧ fresh ∉ keys.map InstanceKey.keyId

/-- What is promised of each step: the keys are looked after within the rotation lead, the peer reads
a document within the publication lead, no two keys are minted at one instant, the operator and the
registry name of the instance's keys the first one only, the instance's documents are its own and no
signature of its keys is forged. -/
def Kept (σ : Signatures) (a : Identity) (own : String → Prop) (first : String) (s : Federated) :
    RotationOp → Prop
  | .tick now =>
    now ≤ s.maintained + keyRotationLeadDays * dayMs ∧
      now < s.readFrom + keyPublicationLeadDays * dayMs
  | .maintain fresh => Fresh own s.keys fresh
  | .rotate fresh => Fresh own s.keys fresh ∧ ∀ k ∈ s.keys, k.notBefore < s.now
  | .serve _ _ => True
  | .book (.restart configured) => Configures a own first configured
  | .book (.discover discovered _) => ∀ d ∈ discovered.records, PinsFirst a own first d
  | .book (.answer fetched) => ∀ u ∈ s.site.upkeep, ∀ e ∈ u.asked, ∀ actor, fetched = .ok actor →
    if e.1.instanceId = a.instanceId then ∃ at_, s.flight = some (actor, at_)
    else Unforged σ own e.1.instanceId actor
  | .book .finish => True
  | .book .start => True
  | .book .ask => True

/-! ## Keys that come and stay -/

/-- The keys after some are minted: the old ones stay, and a key that was not valid does not become
so. -/
structure Grows (keys keys' : List InstanceKey) (now : ℤ) : Prop where
  kept : ∀ k ∈ keys, ∃ k' ∈ keys', k'.served = k.served
  came : ∀ k' ∈ keys', now ≤ k'.notBefore ∨ ∃ k ∈ keys, k.served = k'.served ∧
    k.notBefore = k'.notBefore ∧ (k'.notAfter = k.notAfter ∨ now < k.notAfter)

/-- Of an instance's keys the first one is pinned, and endorsers are its keys. -/
structure Owned (own : String → Prop) (first : String) (keys : List InstanceKey) : Prop where
  ids : ∀ k ∈ keys, own k.keyId
  endorsers : ∀ k ∈ keys, ∀ e ∈ k.endorsement, own e.by_
  first : ∃ k, keys.getLast? = some k ∧ k.keyId = first

/-- The keys that were served at an instant are known, under the first one. -/
structure Knows (own : String → Prop) (first : String) (keys : List InstanceKey) (at_ : ℤ)
    (learned : KeyAnchors) : Prop where
  anchors : ∀ k x, own k → learned.get k = some x → x = first
  known : ∀ k ∈ keys, k.notBefore < at_ → at_ < k.notAfter →
    k.keyId = first ∨ learned.get k.keyId = some first

/-- None of the instance's keys is learned. -/
def Disowns (own : String → Prop) (learned : KeyAnchors) : Prop :=
  ∀ k x, learned.get k = some x → ¬own k

/-- A document shows the keys that were valid at an instant. -/
structure Shows (keys : List InstanceKey) (actor : ActorDocument) (at_ : ℤ) : Prop where
  complete : ∀ k ∈ keys, k.notBefore < at_ → at_ < k.notAfter → k.served ∈ actor.publicKey
  only : ∀ key ∈ actor.publicKey, ∃ k ∈ keys, k.served = key

/-- What is learned of an instance: the instance's keys of itself, and none of them of others. -/
def LearnedOf (a : Identity) (own : String → Prop) (first : String) (keys : List InstanceKey)
    (at_ : ℤ) (instanceId : String) (learned : KeyAnchors) : Prop :=
  if instanceId = a.instanceId then Knows own first keys at_ learned else Disowns own learned

/-- A record pins the instance's first key, if it is the instance's, and no other of its keys. -/
structure PinsOf (a : Identity) (own : String → Prop) (first : String) (p : PeerRecord) : Prop where
  others : PinsFirst a own first p
  pins : p.instanceId = a.instanceId → first ∈ p.pinnedKeys

section Keys

variable {σ : Signatures} {a : Identity} {own : String → Prop} {first fresh : String}
  {keys keys' : List InstanceKey} {now at_ : ℤ} {learned : KeyAnchors} {p : PeerRecord}

/-- A table that stays has grown. -/
theorem Grows.refl (keys : List InstanceKey) (now : ℤ) : Grows keys keys now :=
  ⟨fun k hk => ⟨k, hk, rfl⟩, fun k hk => Or.inr ⟨k, hk, rfl, rfl, Or.inl rfl⟩⟩

/-- An overlap serves the key as before. -/
theorem served_overlapped (keyId : String) (at_ : ℤ) (k : InstanceKey) :
    (overlapped keyId at_ k).served = k.served := by
  obtain ⟨hid, -, hendorsement, -, -⟩ := overlapped_spec keyId at_ k
  unfold InstanceKey.served
  rw [hid, hendorsement]

/-- A rotation grows the table. -/
theorem Grows.rotateIn (hfresh : fresh ∉ keys.map InstanceKey.keyId) (months : ℕ) :
    Grows keys (rotateIn σ keys fresh now a.instanceId months).1 now := by
  rw [rotateIn_eq hfresh]
  constructor
  · intro k hk
    exact ⟨_, List.mem_cons_of_mem _ (List.mem_map_of_mem hk), served_overlapped fresh now k⟩
  · intro k' hk'
    rcases List.mem_cons.mp hk' with rfl | hk'
    · exact Or.inl le_rfl
    · obtain ⟨k, hk, rfl⟩ := List.mem_map.mp hk'
      obtain ⟨-, hbefore, -, -, hafter⟩ := overlapped_spec fresh now k
      exact Or.inr ⟨k, hk, (served_overlapped fresh now k).symm, hbefore.symm, hafter⟩

/-- A rotation mints a key of the instance, endorsed by one. -/
theorem Owned.rotateIn (h : Owned own first keys) (hfresh : Fresh own keys fresh) (months : ℕ) :
    Owned own first (rotateIn σ keys fresh now a.instanceId months).1 := by
  obtain ⟨last, hlast, hfirst⟩ := h.first
  rw [rotateIn_eq hfresh.2]
  refine ⟨fun k hk => ?_, fun k hk e he => ?_, overlapped fresh now last, ?_, ?_⟩
  · rcases List.mem_cons.mp hk with rfl | hk
    · exact hfresh.1
    · obtain ⟨l, hl, rfl⟩ := List.mem_map.mp hk
      rw [(overlapped_spec fresh now l).1]
      exact h.ids l hl
  · rcases List.mem_cons.mp hk with rfl | hk
    · obtain ⟨endorser, hendorser, rfl⟩ := Option.map_eq_some_iff.mp he
      obtain ⟨latest, hlatest, rfl⟩ := Option.map_eq_some_iff.mp hendorser
      exact h.ids latest (Sorting.mem_sortBy.mp (List.mem_of_head? hlatest))
    · obtain ⟨l, hl, rfl⟩ := List.mem_map.mp hk
      rw [(overlapped_spec fresh now l).2.2.1] at he
      exact h.endorsers l hl e he
  · have hne : keys.map (overlapped fresh now) ≠ [] := by
      rintro hnil
      rw [List.map_eq_nil_iff.mp hnil] at hlast
      cases hlast
    rw [List.getLast?_cons_of_ne_nil hne, List.getLast?_map, hlast]
    rfl
  · rw [(overlapped_spec fresh now last).1, hfirst]

/-- What is known stays known. -/
theorem Knows.grow (h : Knows own first keys at_ learned) (hgrows : Grows keys keys' now)
    (hat : at_ ≤ now) : Knows own first keys' at_ learned := by
  refine ⟨h.anchors, fun k' hk' hbefore hafter => ?_⟩
  rcases hgrows.came k' hk' with hnew | ⟨k, hk, hserved, hsame, hend⟩
  · omega
  · have hid : k.keyId = k'.keyId :=
      Option.some.inj (congrArg ServedKey.publicKeyMultibase hserved)
    rw [← hid]
    refine h.known k hk (by omega) ?_
    rcases hend with hend | hend
    · omega
    · omega

/-- What is shown stays shown. -/
theorem Shows.grow {actor : ActorDocument} (h : Shows keys actor at_)
    (hgrows : Grows keys keys' now) (hat : at_ ≤ now) : Shows keys' actor at_ := by
  refine ⟨fun k' hk' hbefore hafter => ?_, fun key hkey => ?_⟩
  · rcases hgrows.came k' hk' with hnew | ⟨k, hk, hserved, hsame, hend⟩
    · omega
    · rw [← hserved]
      refine h.complete k hk (by omega) ?_
      rcases hend with hend | hend
      · omega
      · omega
  · obtain ⟨k, hk, rfl⟩ := h.only key hkey
    exact hgrows.kept k hk

/-- What is learned stays learned. -/
theorem LearnedOf.grow {instanceId : String} (h : LearnedOf a own first keys at_ instanceId learned)
    (hgrows : Grows keys keys' now) (hat : at_ ≤ now) :
    LearnedOf a own first keys' at_ instanceId learned := by
  unfold LearnedOf at h ⊢
  split_ifs at h ⊢
  · exact Knows.grow h hgrows hat
  · exact h

/-! ## Learning a rotation -/

/-- A peer that pins the first key trusts what it knows. -/
theorem Knows.trustedKeys (h : Knows own first keys at_ learned) (howned : Owned own first keys)
    (hp : PinsOf a own first p) (hid : p.instanceId = a.instanceId) :
    Knows own first keys at_ (trustedKeys p learned) := by
  refine ⟨fun k x hk hget => ?_, fun k hk hbefore hafter => ?_⟩
  · exact trustedKeys_sound (P := fun k x => own k → x = first)
      (fun pin hpin hown => (hp.others pin hpin hown).2) (fun k a hget _ hown => h.anchors k a hown hget)
      k x hget hk
  · rcases h.known k hk hbefore hafter with hfirst | hget
    · exact Or.inl hfirst
    · by_cases hfirst : k.keyId = first
      · exact Or.inl hfirst
      · exact Or.inr (trustedKeys_learned hget (hp.pins hid) fun hpin =>
          hfirst (hp.others _ hpin (howned.ids k hk)).2)

/-- A peer of another name trusts none of the instance's keys. -/
theorem Disowns.trustedKeys (h : Disowns own learned) (hp : PinsFirst a own first p)
    (hid : p.instanceId ≠ a.instanceId) : Disowns own (trustedKeys p learned) :=
  trustedKeys_sound (P := fun k _ => ¬own k) (fun pin hpin hown => hid (hp pin hpin hown).1)
    fun k a hget _ => h k a hget

/-- A document of another instance, without forged proofs, has none of the instance's keys chained. -/
theorem Disowns.chainedActorKeys {trusted : KeyAnchors} {instanceId : String} {actor : ActorDocument}
    (h : Disowns own trusted) (hunforged : Unforged σ own instanceId actor) :
    Disowns own (chainedActorKeys σ actor.publicKey instanceId trusted) := by
  intro k x hget
  refine chainedActorKeys_sound (P := fun k _ => ¬own k) h
    (fun key hkey k endorsement a hid hendorsement hverified _ hown => ?_) hget
  rw [hunforged key hkey k endorsement hid hendorsement hown] at hverified
  cases hverified

/-- **A document hands on to every key that it serves**: a peer that knows the keys served at an
earlier instant, within the overlap, knows those that the document shows. -/
theorem Knows.learn {trusted : KeyAnchors} {actor : ActorDocument} {read : ℤ}
    (h : Knows own first keys read trusted) (hfirst : trusted.get first = some first)
    (hrotated : Rotated σ a.instanceId keys now) (howned : Owned own first keys)
    (hshows : Shows keys actor at_) (hread : read ≤ at_)
    (hlately : at_ < read + keyPublicationLeadDays * dayMs) :
    Knows own first keys at_ (chainedActorKeys σ actor.publicKey a.instanceId trusted) := by
  have hanchors : ∀ k x, (anchorsOf σ actor.publicKey a.instanceId trusted).get k = some x →
      own k → x = first := by
    refine anchorsOf_sound (P := fun k x => own k → x = first)
      (fun k x hget hown => h.anchors k x hown hget)
      (fun key hkey k endorsement x hid hendorsement _ hby hown => ?_)
    obtain ⟨l, hl, rfl⟩ := hshows.only key hkey
    exact hby (howned.endorsers l hl endorsement hendorsement)
  -- From the oldest key on, each one that the document shows is endorsed by one before it.
  have hchain : ∀ newer older, keys = newer ++ older → ∀ k ∈ older, k.notBefore < at_ →
      at_ < k.notAfter →
        ∃ x, (anchorsOf σ actor.publicKey a.instanceId trusted).get k.keyId = some x := by
    intro newer older
    induction older generalizing newer with
    | nil =>
      intro _ k hk
      exact absurd hk List.not_mem_nil
    | cons k older ih =>
      intro heq l hl hbefore hafter
      have hkeys : keys = (newer ++ [k]) ++ older := by simp [heq]
      rcases List.mem_cons.mp hl with rfl | hl
      · have hmem : l ∈ keys := heq ▸ List.mem_append_right _ (List.mem_cons_self ..)
        by_cases hold : l.notBefore < read
        · rcases h.known l hmem hold (by omega) with hid | hget
          · exact ⟨first, anchorsOf_mono (hid ▸ hfirst)⟩
          · exact ⟨first, anchorsOf_mono hget⟩
        · cases older with
          | nil =>
            obtain ⟨last, hlast, hid⟩ := howned.first
            rw [heq, List.getLast?_concat] at hlast
            obtain rfl := Option.some.inj hlast
            exact ⟨first, anchorsOf_mono (hid ▸ hfirst)⟩
          | cons m older =>
            have hsucceeds : Succeeds σ a.instanceId l m := by
              have hc := hrotated.chain
              rw [heq] at hc
              exact (List.isChain_append_cons_cons.mp hc).2.1
            obtain ⟨endorsement, hendorsement, hby, hverified⟩ := hsucceeds.endorsed
            have hoverlaps := hsucceeds.overlaps
            have hlater := hsucceeds.later
            have hvalid : at_ < m.notAfter := by
              unfold rotationOverlapDays dayMs at hoverlaps
              unfold keyPublicationLeadDays dayMs at hlately
              omega
            obtain ⟨x, hx⟩ := ih (newer ++ [l]) hkeys m (List.mem_cons_self ..)
              (by omega) hvalid
            exact anchorsOf_endorsed (hshows.complete l hmem hbefore hafter) rfl hendorsement
              hverified (hby ▸ hx)
      · exact ih (newer ++ [k]) hkeys l hl hbefore hafter
  refine ⟨fun k x hown hget => hanchors k x (get_chainedActorKeys.mp hget).1 hown,
    fun k hk hbefore hafter => Or.inr ?_⟩
  obtain ⟨x, hx⟩ := hchain [] keys rfl k hk hbefore hafter
  obtain rfl := hanchors k.keyId x hx (howned.ids k hk)
  exact get_chainedActorKeys.mpr ⟨hx, k.served, hshows.complete k hk hbefore hafter, rfl⟩

end Keys

/-! ## What the book knows -/

/-- A book of an operator that pins the instance's first key, with what it has learned of it. -/
structure BookKnows (a : Identity) (own : String → Prop) (first : String) (keys : List InstanceKey)
    (at_ : ℤ) (b : PeerBook) : Prop where
  configured : Configures a own first b.configured
  discovered : ∀ d ∈ b.discovered.records, PinsFirst a own first d
  stored : ∀ id, LearnedOf a own first keys at_ id (b.stored id)

section Book

variable {a : Identity} {own : String → Prop} {first : String} {keys : List InstanceKey} {at_ : ℤ}
  {b : PeerBook} {p : PeerRecord} {learned : KeyAnchors}

/-- What is learned of a peer is what it is trusted under. -/
theorem LearnedOf.trustedKeys (h : LearnedOf a own first keys at_ p.instanceId learned)
    (howned : Owned own first keys) (hp : PinsOf a own first p) :
    LearnedOf a own first keys at_ p.instanceId (trustedKeys p learned) := by
  unfold LearnedOf at h ⊢
  split_ifs at h ⊢ with hid
  · exact Knows.trustedKeys h howned hp hid
  · exact Disowns.trustedKeys h hp.others hid

/-- A pinned record pins the first key, if it is the instance's, and no other of its keys. -/
theorem BookKnows.pinsOf (h : BookKnows a own first keys at_ b) (hp : p ∈ b.pinned) :
    PinsOf a own first p := by
  obtain ⟨c₀, hc₀, hid₀, hfirst, -⟩ := h.configured.pins
  rcases mem_mergePeerRecords hp with ⟨c, hc, hid, -, hsub, -, hpins⟩ | ⟨hd, hnew⟩
  · refine ⟨fun pin hpin hown => ?_, fun heq => ?_⟩
    · rcases hpins pin hpin with hpin | ⟨d, hd, hdid, hpin⟩
      · exact hid ▸ h.configured.others c hc pin hpin hown
      · exact hdid ▸ h.discovered d hd pin hpin hown
    · have hsame : c = c₀ := List.inj_on_of_nodup_map b.configured.nodup hc hc₀
        ((hid.trans heq).trans hid₀.symm)
      exact hsub first (hsame ▸ hfirst)
  · exact ⟨h.discovered p hd, fun heq => absurd (hid₀.trans heq.symm) (hnew c₀ hc₀)⟩

/-- The instance's record pins each key once. -/
theorem BookKnows.exists_pinned (h : BookKnows a own first keys at_ b) :
    ∃ p ∈ b.pinned, p.instanceId = a.instanceId ∧ p.pinnedKeys.Nodup := by
  obtain ⟨c₀, hc₀, hid₀, -, hnodup⟩ := h.configured.pins
  have hmerged : ∃ p ∈ b.pinned, p.instanceId = c₀.instanceId := exists_mem_mergePeerRecords hc₀
  obtain ⟨p, hp, hid⟩ := hmerged
  refine ⟨p, hp, hid.trans hid₀, ?_⟩
  rcases mem_mergePeerRecords hp with ⟨c, hc, hcid, -, -, hkeeps, -⟩ | ⟨-, hnew⟩
  · have hsame : c = c₀ := List.inj_on_of_nodup_map b.configured.nodup hc hc₀ (hcid.trans hid)
    exact hkeeps (hsame ▸ hnodup)
  · exact absurd hid.symm (hnew c₀ hc₀)

/-- One peer claims a key that is trusted for one peer only. -/
theorem claims_eq_one {k : String} (hp : p ∈ b.pinned) (hk : (b.trusted p).has k = true)
    (hothers : ∀ q ∈ b.pinned, (b.trusted q).has k = true → q.instanceId = p.instanceId) :
    b.claims k = 1 := by
  have hnodup : b.pinned.Nodup :=
    (nodup_mergePeerRecords b.configured.nodup b.discovered.nodup).of_map _
  have hall : ∀ q ∈ b.pinned.filter fun peer => (b.trusted peer).has k, q = p := by
    intro q hq
    obtain ⟨hq, hhas⟩ := List.mem_filter.mp hq
    exact List.inj_on_of_nodup_map
      (nodup_mergePeerRecords b.configured.nodup b.discovered.nodup) hq hp (hothers q hq hhas)
  have hmem : p ∈ b.pinned.filter fun peer => (b.trusted peer).has k :=
    List.mem_filter.mpr ⟨hp, hk⟩
  have hrepeat := List.eq_replicate_of_mem hall
  have hone := List.nodup_replicate.mp (hrepeat ▸ hnodup.filter _)
  exact le_antisymm hone (List.length_pos_of_mem hmem)

/-- **The book learns what is stored of each peer**: of the instance the keys that it served, which
no other peer claims, and of others none of them. -/
theorem BookKnows.learnedOf (h : BookKnows a own first keys at_ b) (howned : Owned own first keys)
    (hp : p ∈ b.pinned) : LearnedOf a own first keys at_ p.instanceId (b.learnedOf p) := by
  have htrusted : ∀ q ∈ b.pinned, LearnedOf a own first keys at_ q.instanceId (b.trusted q) :=
    fun q hq => (h.stored q.instanceId).trustedKeys howned (h.pinsOf hq)
  have hlearned := htrusted p hp
  unfold LearnedOf at hlearned ⊢
  split_ifs at hlearned ⊢ with hid
  · refine ⟨fun k x hown hget => hlearned.anchors k x hown (PeerBook.get_learnedOf hget).1,
      fun k hk hbefore hafter => ?_⟩
    rcases hlearned.known k hk hbefore hafter with hfirst | hget
    · exact Or.inl hfirst
    · by_cases hfirst : k.keyId = first
      · exact Or.inl hfirst
      · have hown := howned.ids k hk
        have hclaims : b.claims k.keyId = 1 := by
          refine claims_eq_one hp (by simp [OrderedMap.has, hget]) fun q hq hhas => ?_
          by_contra hne
          have hdisowns := htrusted q hq
          unfold LearnedOf at hdisowns
          rw [if_neg fun heq => hne (heq.trans hid.symm)] at hdisowns
          obtain ⟨x, hx⟩ := Option.isSome_iff_exists.mp hhas
          exact hdisowns _ x hx hown
        have hnew : k.keyId ∉ p.pinnedKeys := fun hpin =>
          hfirst ((h.pinsOf hp).others _ hpin hown).2
        refine Or.inr ?_
        unfold PeerBook.learnedOf
        rw [OrderedMap.get_filter, hget]
        simp [hnew, hclaims]
  · exact fun k x hget => hlearned k x (PeerBook.get_learnedOf hget).1

/-- So it asks each peer with what is learned of it. -/
theorem BookKnows.asked (h : BookKnows a own first keys at_ b) (howned : Owned own first keys)
    (instanceId : String) : LearnedOf a own first keys at_ instanceId (b.learned instanceId) := by
  unfold PeerBook.learned
  cases hfound : b.pinned.find? fun peer => decide (peer.instanceId = instanceId) with
  | some p =>
    have hid := List.find?_some hfound
    rw [decide_eq_true_eq] at hid
    subst hid
    exact h.learnedOf howned (List.mem_of_find?_eq_some hfound)
  | none =>
    have hne : instanceId ≠ a.instanceId := by
      rintro rfl
      obtain ⟨p, hp, hid, -⟩ := h.exists_pinned
      exact List.find?_eq_none.mp hfound p hp (decide_eq_true hid)
    unfold LearnedOf
    rw [if_neg hne]
    exact fun k x hget => absurd hget (by simp)

/-- **A key that was served at the instant that the book knows of is trusted.** -/
theorem BookKnows.trusts (h : BookKnows a own first keys at_ b) (howned : Owned own first keys)
    {k : InstanceKey} (hk : k ∈ keys)
    (hserved : (k.notBefore < at_ ∧ at_ < k.notAfter) ∨ k.keyId = first) :
    ∃ peer ∈ b.all, peer.instanceId = a.instanceId ∧ k.keyId ∈ peer.pinnedKeys := by
  obtain ⟨p, hp, hid, hnodup⟩ := h.exists_pinned
  have hpinned := (h.pinsOf hp).pins hid
  have hknows := h.learnedOf howned hp
  unfold LearnedOf at hknows
  rw [if_pos hid] at hknows
  refine ⟨withLearnedKeys p (b.learnedOf p), List.mem_map_of_mem hp,
    (withLearnedKeys_spec p _).1.trans hid, ?_⟩
  have hknown : k.keyId = first ∨ (b.learnedOf p).get k.keyId = some first := by
    rcases hserved with ⟨hbefore, hafter⟩ | hfirst
    · exact hknows.known k hk hbefore hafter
    · exact Or.inl hfirst
  rcases hknown with hfirst | hget
  · rw [hfirst]
    exact mem_withLearnedKeys_of_nodup hnodup (trustedKeys_pin hpinned)
  · exact mem_withLearnedKeys_of_nodup hnodup
      (trustedKeys_learned hget hpinned (PeerBook.get_learnedOf hget).2.1)

end Book

/-! ## Every step -/

/-- What is kept of the keys, the documents and the book. -/
structure Follows (σ : Signatures) (a : Identity) (own : String → Prop) (first : String)
    (s : Federated) : Prop where
  rotated : Rotated σ a.instanceId s.keys s.now
  owned : Owned own first s.keys
  lasts : Lasts s.keys s.maintained
  long : ∀ k ∈ s.keys.head?, k.notBefore + 181 * dayMs ≤ k.notAfter
  maintained : s.maintained ≤ s.now ∧ s.now ≤ s.maintained + keyRotationLeadDays * dayMs
  lately : s.now < s.readFrom + keyPublicationLeadDays * dayMs
  order : s.readFrom ≤ s.storedFrom ∧ s.storedFrom ≤ s.now
  book : BookKnows a own first s.keys s.readFrom s.site.book
  stored : ∀ id, LearnedOf a own first s.keys s.storedFrom id (s.site.learned id)
  remaining : ∀ u ∈ s.site.upkeep, ∀ p ∈ u.remaining, PinsOf a own first p
  asked : ∀ u ∈ s.site.upkeep, ∀ e ∈ u.asked, PinsOf a own first e.1 ∧
    LearnedOf a own first s.keys s.readFrom e.1.instanceId e.2
  flight : ∀ f ∈ s.flight, f.2 ≤ s.now ∧ Shows s.keys f.1 f.2 ∧
    ∀ u ∈ s.site.upkeep, u.asked.isSome = true → s.readFrom ≤ f.2

section Steps

variable {σ : Signatures} {a : Identity} {own : String → Prop} {first : String}
  {s s' : Federated}

/-- The newest key is valid. -/
theorem Follows.newest (h : Follows σ a own first s) :
    ∃ k, s.keys.head? = some k ∧ k.isActive s.now = true ∧ s.now < k.notAfter := by
  obtain ⟨k, hk, hlasts⟩ := h.lasts
  have hnow := h.maintained.2
  have hvalid : s.now < k.notAfter := lt_of_le_of_lt hnow hlasts
  exact ⟨k, hk, decide_eq_true ⟨h.rotated.past k (List.mem_of_head? hk), hvalid⟩, hvalid⟩

/-- Keys that grow are followed as before. -/
theorem Follows.grow (h : Follows σ a own first s) {keys : List InstanceKey} {maintained : ℤ}
    (hgrows : Grows s.keys keys s.now) (hrotated : Rotated σ a.instanceId keys s.now)
    (howned : Owned own first keys) (hlasts : Lasts keys maintained)
    (hlong : ∀ k ∈ keys.head?, k.notBefore + 181 * dayMs ≤ k.notAfter)
    (hmaintained : maintained ≤ s.now ∧ s.now ≤ maintained + keyRotationLeadDays * dayMs) :
    Follows σ a own first { s with keys := keys, maintained := maintained } where
  rotated := hrotated
  owned := howned
  lasts := hlasts
  long := hlong
  maintained := hmaintained
  lately := h.lately
  order := h.order
  book := ⟨h.book.configured, h.book.discovered, fun id =>
    (h.book.stored id).grow hgrows (h.order.1.trans h.order.2)⟩
  stored id := (h.stored id).grow hgrows h.order.2
  remaining := h.remaining
  asked u hu e he := ⟨(h.asked u hu e he).1,
    (h.asked u hu e he).2.grow hgrows (h.order.1.trans h.order.2)⟩
  flight f hf := ⟨(h.flight f hf).1, (h.flight f hf).2.1.grow hgrows (h.flight f hf).1,
    (h.flight f hf).2.2⟩

/-- A rotation is followed. -/
theorem Follows.rotate
    (hσ : ∀ keyId message, σ.verify keyId (σ.sign keyId message) message = true)
    (h : Follows σ a own first s) {fresh : String} (hfresh : Fresh own s.keys fresh)
    (hlater : ∀ k ∈ s.keys, k.notBefore < s.now) {maintained : ℤ} (hlead : maintained ≤ s.now)
    (hwithin : s.now ≤ maintained + keyRotationLeadDays * dayMs) :
    Follows σ a own first { s with
      keys := (rotateIn σ s.keys fresh s.now a.instanceId instanceKeyValidityMonths).1
      maintained := maintained } := by
  obtain ⟨newest, hnewest, -, hvalid⟩ := h.newest
  have hlasts : Lasts (rotateIn σ s.keys fresh s.now a.instanceId instanceKeyValidityMonths).1
      maintained := by
    obtain ⟨k, hk, hlasts⟩ := @Lasts.rotateIn σ a.instanceId fresh s.keys s.now hfresh.2
    refine ⟨k, hk, ?_⟩
    omega
  refine h.grow (Grows.rotateIn hfresh.2 _)
    (h.rotated.rotateIn hσ hfresh.2 hnewest (hlater _ (List.mem_of_head? hnewest)) hvalid le_rfl _)
    (h.owned.rotateIn hfresh _) hlasts ?_ ⟨hlead, hwithin⟩
  intro k hk
  rw [rotateIn_eq hfresh.2] at hk
  obtain rfl := Option.some.inj hk
  exact le_addMonths s.now

/-- Upkeep of the keys is followed. -/
theorem Follows.maintain
    (hσ : ∀ keyId message, σ.verify keyId (σ.sign keyId message) message = true)
    (h : Follows σ a own first s) {fresh : String} (hfresh : Fresh own s.keys fresh) :
    Follows σ a own first { s with
      keys := (maintainInstanceKey σ s.keys fresh s.now a.instanceId).1
      maintained := s.now } := by
  obtain ⟨newest, hnewest, hactive, hvalid⟩ := h.newest
  have hwithin : s.now ≤ s.now + keyRotationLeadDays * dayMs := by
    unfold keyRotationLeadDays dayMs
    omega
  obtain ⟨hsame | ⟨hdue, hrotated⟩, hlasts⟩ :=
    maintainInstanceKey_spec (σ := σ) h.rotated hnewest hactive hfresh.2
  · rw [hsame] at hlasts ⊢
    exact h.grow (Grows.refl _ _) h.rotated h.owned hlasts h.long ⟨le_rfl, hwithin⟩
  · rw [hrotated]
    refine h.rotate hσ hfresh (fun k hk => ?_) le_rfl hwithin
    -- A key that is due for rotation was minted months ago.
    have hlong := h.long newest hnewest
    have hnewest' : newest.notBefore < s.now := by
      unfold keyRotationLeadDays dayMs at hdue
      unfold dayMs at hlong
      omega
    obtain ⟨rest, hkeys⟩ := List.head?_eq_some_iff.mp hnewest
    rw [hkeys] at hk
    rcases List.mem_cons.mp hk with rfl | hk
    · exact hnewest'
    · exact ((List.pairwise_cons.mp (hkeys ▸ h.rotated.pairwise)).1 k hk).trans hnewest'

/-- The instance serves the keys that are valid now. -/
theorem Follows.serve (h : Follows σ a own first s) {fresh : String} {refusal : Option String}
    (hstep : rotationStep σ a s (.serve fresh refusal) = some s') : Follows σ a own first s' := by
  obtain ⟨newest, hnewest, hactive, -⟩ := h.newest
  have hmem : ∀ k, k ∈ loadActiveKeys s.keys s.now ↔ k ∈ s.keys ∧ k.isActive s.now = true := by
    intro k
    rw [h.rotated.loadActiveKeys_eq, List.mem_filter]
  have hsome : (loadActiveKeys s.keys s.now).isEmpty = false := by
    rw [Bool.eq_false_iff, Ne, List.isEmpty_iff]
    intro hnil
    exact absurd ((hmem newest).mpr ⟨List.mem_of_head? hnewest, hactive⟩) (by simp [hnil])
  have hkeys : activeKeys σ s.keys fresh s.now a.instanceId =
      (s.keys, loadActiveKeys s.keys s.now) := by
    unfold activeKeys
    dsimp only
    rw [if_neg (by simp [hsome])]
  have hactor : buildActorDocument a (loadActiveKeys s.keys s.now) refusal =
      .ok ⟨some a.actorUrl, (loadActiveKeys s.keys s.now).map InstanceKey.served, refusal⟩ := by
    unfold buildActorDocument
    rw [if_neg (by simp [hsome])]
  unfold rotationStep at hstep
  dsimp only at hstep
  rw [hkeys, hactor] at hstep
  obtain rfl := Option.some.inj hstep
  refine ⟨h.rotated, h.owned, h.lasts, h.long, h.maintained, h.lately, h.order, h.book, h.stored,
    h.remaining, h.asked, fun f hf => ?_⟩
  obtain rfl := Option.some.inj hf
  refine ⟨le_rfl, ⟨fun k hk hbefore hafter => ?_, fun key hkey => ?_⟩,
    fun _ _ _ => h.order.1.trans h.order.2⟩
  · exact List.mem_map_of_mem ((hmem k).mpr ⟨hk, decide_eq_true ⟨hbefore.le, hafter⟩⟩)
  · obtain ⟨k, hk, rfl⟩ := List.mem_map.mp hkey
    exact ⟨k, ((hmem k).mp hk).1, rfl⟩

/-- What is stored of a document: of the instance the keys that it served, and of another instance
none of them. -/
theorem Follows.learn (h : Follows σ a own first s) {u : Upkeep} (hu : s.site.upkeep = some u)
    {e : PeerRecord × KeyAnchors} (he : u.asked = some e) {actor : ActorDocument} {at_ : ℤ}
    (hactor : if e.1.instanceId = a.instanceId then s.flight = some (actor, at_)
      else Unforged σ own e.1.instanceId actor) (id : String) :
    LearnedOf a own first s.keys (if e.1.instanceId = a.instanceId then at_ else s.storedFrom) id
      (storeLearnedKeys s.site.learned e.1.instanceId
        ((chainedActorKeys σ actor.publicKey e.1.instanceId (trustedKeys e.1 e.2)).filter
          fun k => decide (k.1 ∉ e.1.pinnedKeys)) id) := by
  obtain ⟨hpins, hasked⟩ := h.asked u hu e he
  have htrusted := hasked.trustedKeys h.owned hpins
  unfold LearnedOf at htrusted ⊢
  by_cases hname : e.1.instanceId = a.instanceId
  · rw [if_pos hname] at hactor htrusted ⊢
    obtain ⟨hsent, hshows, hread⟩ := h.flight _ hactor
    have hlately := h.lately
    dsimp only at hsent hshows hread
    have hknows := Knows.learn htrusted (trustedKeys_pin (hpins.pins hname)) h.rotated h.owned
      hshows (hread u hu (by simp [he])) (lt_of_le_of_lt hsent hlately)
    rw [← hname] at hknows
    split_ifs with hid
    · refine ⟨fun k x hown hget => ?_, fun k hk hbefore hafter => ?_⟩
      · rw [get_storeLearnedKeys, if_pos (hid.trans hname.symm)] at hget
        split_ifs at hget
        exact hknows.anchors k x hown hget
      · rcases hknows.known k hk hbefore hafter with hfirst | hget
        · exact Or.inl hfirst
        · by_cases hpin : k.keyId ∈ e.1.pinnedKeys
          · exact Or.inl (hpins.others _ hpin (h.owned.ids k hk)).2
          · rw [get_storeLearnedKeys, if_pos (hid.trans hname.symm), if_neg hpin]
            exact Or.inr hget
    · intro k x hget
      rw [get_storeLearnedKeys, if_neg fun heq => hid (heq.trans hname)] at hget
      have hstored := h.stored id
      unfold LearnedOf at hstored
      rw [if_neg hid] at hstored
      exact hstored k x hget
  · rw [if_neg hname] at hactor htrusted ⊢
    have hstored := h.stored id
    unfold LearnedOf at hstored
    by_cases hid : id = e.1.instanceId
    · rw [if_neg fun heq => hname (hid.symm.trans heq)]
      intro k x hget
      rw [get_storeLearnedKeys, if_pos hid] at hget
      split_ifs at hget
      exact Disowns.chainedActorKeys htrusted hactor k x hget
    · have hsame : storeLearnedKeys s.site.learned e.1.instanceId
          ((chainedActorKeys σ actor.publicKey e.1.instanceId (trustedKeys e.1 e.2)).filter
            fun k => decide (k.1 ∉ e.1.pinnedKeys)) id = s.site.learned id := if_neg hid
      rw [hsame]
      exact hstored

/-- An answer is followed. -/
theorem Follows.answer (h : Follows σ a own first s) {fetched : Except String ActorDocument}
    (hkept : Kept σ a own first s (.book (.answer fetched)))
    (hstep : rotationStep σ a s (.book (.answer fetched)) = some s') :
    Follows σ a own first s' := by
  rcases hupkeep : s.site.upkeep with _ | ⟨remaining, _ | ⟨peer, learned⟩⟩
  · simp [rotationStep, bookStep, hupkeep] at hstep
  · simp [rotationStep, bookStep, hupkeep] at hstep
  · have hs' : s' = { s with
        site := { s.site with
          learned := (refreshPeerCapabilities σ s.site.learned peer learned fetched).1
          upkeep := some ⟨remaining, none⟩ }
        storedFrom := servedAt σ a s fetched } := by
      simpa [rotationStep, bookStep, hupkeep, eq_comm] using hstep
    subst hs'
    have hremaining : ∀ p ∈ remaining, PinsOf a own first p := h.remaining _ hupkeep
    have hflight : ∀ f ∈ s.flight, f.2 ≤ s.now ∧ Shows s.keys f.1 f.2 :=
      fun f hf => ⟨(h.flight f hf).1, (h.flight f hf).2.1⟩
    have hfollows : ∀ at_ : ℤ, s.readFrom ≤ at_ ∧ at_ ≤ s.now → ∀ t : LearnedKeys,
        (∀ id, LearnedOf a own first s.keys at_ id (t id)) → Follows σ a own first { s with
          site := { s.site with learned := t, upkeep := some ⟨remaining, none⟩ }
          storedFrom := at_ } := by
      intro at_ hat t ht
      refine ⟨h.rotated, h.owned, h.lasts, h.long, h.maintained, h.lately, hat, h.book, ht,
        fun u hu => ?_, fun u hu e he => ?_, fun f hf => ?_⟩
      · obtain rfl := Option.some.inj hu
        exact hremaining
      · obtain rfl := Option.some.inj hu
        cases he
      · refine ⟨(hflight f hf).1, (hflight f hf).2, fun u hu hsome => ?_⟩
        obtain rfl := Option.some.inj hu
        cases hsome
    rcases refreshPeerCapabilities_spec σ peer learned s.site.learned fetched with ⟨⟨reason, hreason⟩, hsame⟩ | ⟨actor, keys, rfl, hkeys, hstored⟩
    · have hat : servedAt σ a s fetched = s.storedFrom := by
        unfold servedAt
        rw [hupkeep]
        cases s.flight with
        | none => rfl
        | some f =>
          dsimp only [Option.bind_some]
          rw [hreason]
          split_ifs <;> rfl
      rw [hsame, hat]
      exact hfollows _ h.order _ h.stored
    · have hactor := hkept _ hupkeep _ rfl actor rfl
      rw [hstored]
      by_cases hname : peer.instanceId = a.instanceId
      · rw [if_pos hname] at hactor
        obtain ⟨at_, hflightAt⟩ := hactor
        have hat : servedAt σ a s (.ok actor) = at_ := by
          unfold servedAt
          rw [hupkeep, hflightAt]
          dsimp only [Option.bind_some]
          rw [if_pos hname, hkeys]
        have hsent : if peer.instanceId = a.instanceId then s.flight = some (actor, at_)
            else Unforged σ own peer.instanceId actor := by
          rw [if_pos hname]
          exact hflightAt
        have hlearn := h.learn hupkeep rfl hsent
        simp only [if_pos hname] at hlearn
        obtain ⟨hbefore, -, hread⟩ := h.flight _ hflightAt
        rw [hat]
        exact hfollows at_ ⟨hread _ hupkeep rfl, hbefore⟩ _ hlearn
      · rw [if_neg hname] at hactor
        have hat : servedAt σ a s (.ok actor) = s.storedFrom := by
          unfold servedAt
          rw [hupkeep]
          cases s.flight with
          | none => rfl
          | some f => exact if_neg hname
        have hsent : if peer.instanceId = a.instanceId then s.flight = some (actor, s.now)
            else Unforged σ own peer.instanceId actor := by
          rw [if_neg hname]
          exact hactor
        have hlearn := h.learn hupkeep rfl hsent
        simp only [if_neg hname] at hlearn
        rw [hat]
        exact hfollows _ h.order _ hlearn

/-- What happens to the book but answers is followed. -/
theorem Follows.book_step (h : Follows σ a own first s) {op : BookOp}
    (hkept : Kept σ a own first s (.book op))
    (hstep : rotationStep σ a s (.book op) = some s') : Follows σ a own first s' := by
  have hflight : ∀ f ∈ s.flight, f.2 ≤ s.now ∧ Shows s.keys f.1 f.2 :=
    fun f hf => ⟨(h.flight f hf).1, (h.flight f hf).2.1⟩
  have hlately : s.now < s.storedFrom + keyPublicationLeadDays * dayMs :=
    lt_of_lt_of_le h.lately (by linarith [h.order.1])
  cases op with
  | restart configured =>
    obtain rfl := Option.some.inj hstep
    refine ⟨h.rotated, h.owned, h.lasts, h.long, h.maintained, hlately, ⟨le_rfl, h.order.2⟩,
      ⟨hkept, fun d hd => absurd hd List.not_mem_nil, h.stored⟩, h.stored, fun u hu => ?_,
      fun u hu => ?_, fun f hf => ⟨(hflight f hf).1, (hflight f hf).2, fun u hu => ?_⟩⟩
    all_goals cases hu
  | discover discovered self =>
    obtain rfl := Option.some.inj hstep
    refine ⟨h.rotated, h.owned, h.lasts, h.long, h.maintained, h.lately, h.order,
      ⟨h.book.configured, fun d hd => ?_, h.book.stored⟩, h.stored, h.remaining, h.asked, h.flight⟩
    obtain ⟨e, he, hid, hpins⟩ := mem_discoveredPeers hd
    exact fun pin hpin hown => hid ▸ hkept e he pin (hpins pin hpin) hown
  | start =>
    cases hupkeep : s.site.upkeep with
    | some u => simp [rotationStep, bookStep, hupkeep] at hstep
    | none =>
      obtain rfl : _ = s' := by simpa [rotationStep, bookStep, hupkeep] using hstep
      refine ⟨h.rotated, h.owned, h.lasts, h.long, h.maintained, h.lately, h.order, h.book,
        h.stored, fun u hu p hp => ?_, fun u hu e he => ?_, fun f hf => ⟨(hflight f hf).1,
          (hflight f hf).2, fun u hu hsome => ?_⟩⟩
      · obtain rfl := Option.some.inj hu
        exact h.book.pinsOf hp
      · obtain rfl := Option.some.inj hu
        cases he
      · obtain rfl := Option.some.inj hu
        cases hsome
  | ask =>
    rcases hupkeep : s.site.upkeep with _ | ⟨_ | ⟨peer, remaining⟩, _ | asked⟩
    · simp [rotationStep, bookStep, hupkeep] at hstep
    · simp [rotationStep, bookStep, hupkeep] at hstep
    · simp [rotationStep, bookStep, hupkeep] at hstep
    · obtain rfl : _ = s' := by simpa [rotationStep, bookStep, hupkeep] using hstep
      have hremaining := h.remaining _ hupkeep
      refine ⟨h.rotated, h.owned, h.lasts, h.long, h.maintained, h.lately, h.order, h.book,
        h.stored, fun u hu p hp => ?_, fun u hu e he => ?_, fun f hf => ?_⟩
      · obtain rfl := Option.some.inj hu
        exact hremaining p (List.mem_cons_of_mem _ hp)
      · obtain rfl := Option.some.inj hu
        obtain rfl := Option.some.inj he
        exact ⟨hremaining peer (List.mem_cons_self ..), h.book.asked h.owned _⟩
      · cases hf
    · simp [rotationStep, bookStep, hupkeep] at hstep
  | answer fetched => exact h.answer hkept hstep
  | finish =>
    rcases hupkeep : s.site.upkeep with _ | ⟨_ | ⟨peer, remaining⟩, _ | asked⟩
    · simp [rotationStep, bookStep, hupkeep] at hstep
    · obtain rfl : _ = s' := by simpa [rotationStep, bookStep, hupkeep] using hstep
      refine ⟨h.rotated, h.owned, h.lasts, h.long, h.maintained, hlately, ⟨le_rfl, h.order.2⟩,
        ⟨h.book.configured, h.book.discovered, h.stored⟩, h.stored, fun u hu => ?_,
        fun u hu => ?_, fun f hf => ⟨(hflight f hf).1, (hflight f hf).2, fun u hu => ?_⟩⟩
      all_goals cases hu
    · simp [rotationStep, bookStep, hupkeep] at hstep
    · simp [rotationStep, bookStep, hupkeep] at hstep
    · simp [rotationStep, bookStep, hupkeep] at hstep

/-- **Every step that keeps what is promised is followed.** -/
theorem Follows.step
    (hσ : ∀ keyId message, σ.verify keyId (σ.sign keyId message) message = true)
    (h : Follows σ a own first s) {op : RotationOp} (hkept : Kept σ a own first s op)
    (hstep : rotationStep σ a s op = some s') : Follows σ a own first s' := by
  cases op with
  | tick now =>
    unfold rotationStep at hstep
    dsimp only at hstep
    split_ifs at hstep with hlater
    obtain rfl := Option.some.inj hstep
    obtain ⟨hmaintained, hlately⟩ := hkept
    exact ⟨⟨h.rotated.ids, h.rotated.chain, fun k hk => (h.rotated.past k hk).trans hlater⟩,
      h.owned, h.lasts, h.long, ⟨h.maintained.1.trans hlater, hmaintained⟩, hlately,
      ⟨h.order.1, h.order.2.trans hlater⟩, h.book, h.stored, h.remaining, h.asked, fun f hf =>
        ⟨(h.flight f hf).1.trans hlater, (h.flight f hf).2.1, (h.flight f hf).2.2⟩⟩
  | maintain fresh =>
    obtain rfl := Option.some.inj hstep
    exact h.maintain hσ hkept
  | rotate fresh =>
    obtain rfl := Option.some.inj hstep
    exact h.rotate hσ hkept.1 hkept.2 h.maintained.1 h.maintained.2
  | serve fresh refusal => exact h.serve hstep
  | book op => exact h.book_step hkept hstep

/-- **The key that signs is trusted.** -/
theorem Follows.trusts (h : Follows σ a own first s) :
    ∃ key, signingKeyOf (loadActiveKeys s.keys s.now) s.now = some key ∧
      ∃ peer ∈ s.site.book.all, peer.instanceId = a.instanceId ∧ key.keyId ∈ peer.pinnedKeys := by
  obtain ⟨newest, hnewest, hactive, -⟩ := h.newest
  obtain ⟨key, hkey⟩ := exists_signingKey h.rotated hnewest hactive
  obtain ⟨hmem, hvalid, hserved⟩ := signingKeyOf_spec h.rotated hkey
  refine ⟨key, hkey, h.book.trusts h.owned hmem ?_⟩
  rcases hserved with hpublished | hlast
  · obtain ⟨-, hafter⟩ := of_decide_eq_true hvalid
    have hlately := h.lately
    have hread := h.order.1.trans h.order.2
    exact Or.inl ⟨by omega, lt_of_le_of_lt hread hafter⟩
  · obtain ⟨last, hlast', hfirst⟩ := h.owned.first
    rw [hlast'] at hlast
    obtain rfl := Option.some.inj hlast
    exact Or.inr hfirst

end Steps

/-! ## Every run -/

/-- An instance with its first key, and a peer whose operator has pinned it. -/
def Federated.init (σ : Signatures) (first : String) (now : ℤ) (configured : ConfiguredPeers) :
    Federated where
  keys := [generateInstanceKey σ first now instanceKeyValidityMonths none]
  now := now
  maintained := now
  site := .init configured
  flight := none
  storedFrom := now
  readFrom := now

/-- The first key is followed. -/
theorem Follows.init (σ : Signatures) {a : Identity} {own : String → Prop} {first : String}
    (hown : own first) (now : ℤ) {configured : ConfiguredPeers}
    (hconfigured : Configures a own first configured) :
    Follows σ a own first (.init σ first now configured) := by
  have hempty : ∀ id, LearnedOf a own first (Federated.init σ first now configured).keys now id
      .empty := by
    intro id
    unfold LearnedOf
    split_ifs
    · refine ⟨fun k x _ hget => absurd hget (by simp), fun k hk _ _ => ?_⟩
      obtain rfl := List.mem_singleton.mp hk
      exact Or.inl rfl
    · exact fun k x hget => absurd hget (by simp)
  have hlong := le_addMonths now
  refine ⟨⟨List.nodup_singleton _, List.isChain_singleton _, fun k hk => ?_⟩,
    ⟨fun k hk => ?_, fun k hk e he => ?_, ⟨_, rfl, rfl⟩⟩, ⟨_, rfl, ?_⟩, fun k hk => ?_, ⟨le_rfl, ?_⟩,
    ?_, ⟨le_rfl, le_rfl⟩, ⟨hconfigured, fun d hd => absurd hd List.not_mem_nil, hempty⟩, hempty,
    fun u hu => ?_, fun u hu => ?_, fun f hf => ?_⟩
  · obtain rfl := List.mem_singleton.mp hk
    exact le_rfl
  · obtain rfl := List.mem_singleton.mp hk
    exact hown
  · obtain rfl := List.mem_singleton.mp hk
    cases he
  · refine lt_of_lt_of_le ?_ hlong
    dsimp only [Federated.init]
    unfold keyRotationLeadDays dayMs
    omega
  · obtain rfl := Option.some.inj hk
    exact hlong
  · dsimp only [Federated.init]
    unfold keyRotationLeadDays dayMs
    omega
  · dsimp only [Federated.init]
    unfold keyPublicationLeadDays dayMs
    omega
  · cases hu
  · cases hu
  · cases hf

/-- The instance of the samples. -/
def sampleIdentity : Identity := ⟨"b.example", "https://b.example/actor"⟩

/-- Two keys, the newer one endorsed by the older. -/
def sampleKeys : List InstanceKey :=
  [⟨"k1", dayMs, addMonths dayMs 6, (sampleServed "k0" "k1").endorsement⟩,
    ⟨"k0", 0, addMonths 0 6, none⟩]

/-- The document that serves them. -/
def sampleDocument : ActorDocument :=
  ⟨some "https://b.example/actor", [sampleServed "k0" "k1", ⟨some "k0", none⟩], none⟩

/-- The instance of the samples and its peer, once the keys are rotated. -/
def sampleFederated (now : ℤ) (site : Local) (flight : Option (ActorDocument × ℤ))
    (storedFrom readFrom : ℤ) : Federated :=
  ⟨sampleKeys, now, 0, site, flight, storedFrom, readFrom⟩

/-- A rotation on the second day, read on the third. -/
def sampleRotation : List RotationOp :=
  [.tick dayMs, .rotate "k1", .tick (2 * dayMs), .book .start, .book .ask, .serve "" none,
    .book (.answer (.ok sampleDocument)), .book .finish, .tick (8 * dayMs)]

end OpenConditions.Federation

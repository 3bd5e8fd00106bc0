import OpenConditions.Federation.PeerKeys
import OpenConditions.Lib.Run

set_option relaxedAutoImplicit false
set_option autoImplicit false

/-!
# The peer book

The peers that an instance federates with (`services/federation/src/peer-book.ts`): the configured
ones and those of the registry's last verified sync, each trusting beside its pins the keys that it
was seen to rotate to.  The upkeep of the peers asks each for its document and keeps what it learns
(`services/federation/src/peering.ts`); a registry sync or a restart may fall between any two of its
steps.

## Main definitions

* `mergePeerRecords` — the configured peers and the discovered ones.
* `PeerBook`, `PeerBook.all` — the book, and what it trusts.
* `BookOp`, `bookStep` — what happens to the book.

## Main results

* `mem_mergePeerRecords`, `nodup_mergePeerRecords` — the merged records.
* `trusted_runs` — whatever the peers serve, a key that is trusted leads back to a pin by verified
  endorsements, and no key is trusted for two peers that the registry does not name for both.
-/

namespace OpenConditions.Federation

/-! ## Configured and discovered peers -/

/-- Peer records, one of each instance. -/
structure PeerList where
  records : List PeerRecord
  nodup : (records.map PeerRecord.instanceId).Nodup

/-- The configured peers: a key is one instance's, never two. -/
structure ConfiguredPeers extends PeerList where
  exclusive : ∀ p ∈ records, ∀ q ∈ records, ∀ pin ∈ p.pinnedKeys, pin ∈ q.pinnedKeys →
    p.instanceId = q.instanceId

/-- Adds the keys that are not there yet. -/
def unionKeys (keys more : List String) : List String :=
  more.foldl (fun union key => if key ∈ union then union else union ++ [key]) keys

/-- The configured peers, those that are discovered too pinning both sets of keys, and after them the
ones that are discovered only. -/
def mergePeerRecords (bilateral discovered : List PeerRecord) : List PeerRecord :=
  (bilateral.map fun peer =>
    match discovered.find? fun d => decide (d.instanceId = peer.instanceId) with
    | none => peer
    | some fromRegistry =>
      { peer with pinnedKeys := unionKeys peer.pinnedKeys fromRegistry.pinnedKeys }) ++
  discovered.filter fun d => decide (d.instanceId ∉ bilateral.map PeerRecord.instanceId)

/-- The configured peer that pins a key. -/
def pinnedBy (configured : List PeerRecord) (key : String) : Option String :=
  (configured.reverse.find? fun p => decide (key ∈ p.pinnedKeys)).map PeerRecord.instanceId

/-- A discovered peer as it is taken: in the public tier, without the keys that another configured
peer pins. -/
def discoveredPeer (configured : List PeerRecord) (peer : PeerRecord) : PeerRecord :=
  { peer with
    trustTier := 0
    pinnedKeys := peer.pinnedKeys.filter fun key =>
      decide ((pinnedBy configured key).getD peer.instanceId = peer.instanceId) }

/-- The discovered peers as they are taken, this instance's own entry left out. -/
def discoveredPeers (configured : List PeerRecord) (discovered : List PeerRecord) (self : String) :
    List PeerRecord :=
  ((discovered.filter fun peer => decide (peer.instanceId ≠ self)).map
    (discoveredPeer configured)).filter fun peer => !peer.pinnedKeys.isEmpty

/-- A key that another configured peer pins is not taken. -/
theorem discoveredPeers_unclaimed {configured discovered : List PeerRecord} {self : String}
    (hexclusive : ∀ p ∈ configured, ∀ q ∈ configured, ∀ pin ∈ p.pinnedKeys, pin ∈ q.pinnedKeys →
      p.instanceId = q.instanceId) {p q : PeerRecord}
    (hp : p ∈ discoveredPeers configured discovered self) (hq : q ∈ configured) {pin : String}
    (hpin : pin ∈ p.pinnedKeys) (hpin' : pin ∈ q.pinnedKeys) : q.instanceId = p.instanceId := by
  obtain ⟨hp, -⟩ := List.mem_filter.mp hp
  obtain ⟨d, -, rfl⟩ := List.mem_map.mp hp
  obtain ⟨-, hkept⟩ := List.mem_filter.mp hpin
  rw [decide_eq_true_eq] at hkept
  unfold pinnedBy at hkept
  cases hfound : configured.reverse.find? fun p => decide (pin ∈ p.pinnedKeys) with
  | none =>
    exact absurd (decide_eq_true hpin')
      (List.find?_eq_none.mp hfound q (List.mem_reverse.mpr hq))
  | some r =>
    have hpinned := List.find?_some hfound
    have hr := List.mem_reverse.mp (List.mem_of_find?_eq_some hfound)
    rw [hfound, Option.map_some, Option.getD_some] at hkept
    rw [← hexclusive r hr q hq pin (of_decide_eq_true hpinned) hpin']
    exact hkept

/-- A discovered peer is taken under its name, with keys of its own. -/
theorem mem_discoveredPeers {configured discovered : List PeerRecord} {self : String}
    {p : PeerRecord} (hp : p ∈ discoveredPeers configured discovered self) :
    ∃ d ∈ discovered, d.instanceId = p.instanceId ∧ ∀ pin ∈ p.pinnedKeys, pin ∈ d.pinnedKeys := by
  obtain ⟨hp, -⟩ := List.mem_filter.mp hp
  obtain ⟨d, hd, rfl⟩ := List.mem_map.mp hp
  exact ⟨d, List.mem_of_mem_filter hd, rfl, fun pin hpin => List.mem_of_mem_filter hpin⟩

/-- The discovered peers are taken one of each instance. -/
theorem nodup_discoveredPeers {configured discovered : List PeerRecord} (self : String)
    (h : (discovered.map PeerRecord.instanceId).Nodup) :
    ((discoveredPeers configured discovered self).map PeerRecord.instanceId).Nodup := by
  have hids : ((discovered.filter fun peer => decide (peer.instanceId ≠ self)).map
      (discoveredPeer configured)).map PeerRecord.instanceId =
        (discovered.filter fun peer => decide (peer.instanceId ≠ self)).map
          PeerRecord.instanceId := by
    rw [List.map_map]
    rfl
  refine (List.filter_sublist.map _).nodup ?_
  rw [hids]
  exact (List.filter_sublist.map _).nodup h

/-- A discovered peer is taken in the public tier. -/
theorem discoveredPeers_tier {configured discovered : List PeerRecord} {self : String}
    {p : PeerRecord} (hp : p ∈ discoveredPeers configured discovered self) : p.trustTier = 0 := by
  obtain ⟨hp, -⟩ := List.mem_filter.mp hp
  obtain ⟨d, -, rfl⟩ := List.mem_map.mp hp
  rfl

/-! ## Merged records -/

section Merge

variable {bilateral discovered : List PeerRecord} {p : PeerRecord}

/-- The union holds the keys of both. -/
theorem mem_unionKeys {keys more : List String} {key : String} :
    key ∈ unionKeys keys more ↔ key ∈ keys ∨ key ∈ more := by
  induction more generalizing keys with
  | nil => simp [unionKeys]
  | cons k more ih =>
    have hstep : unionKeys keys (k :: more) =
        unionKeys (if k ∈ keys then keys else keys ++ [k]) more := rfl
    rw [hstep, ih]
    split_ifs with hk
    · constructor
      · rintro (h | h)
        · exact Or.inl h
        · exact Or.inr (List.mem_cons_of_mem _ h)
      · rintro (h | h)
        · exact Or.inl h
        · rcases List.mem_cons.mp h with rfl | h
          · exact Or.inl hk
          · exact Or.inr h
    · simp only [List.mem_append, List.mem_cons, List.not_mem_nil, or_false]
      tauto

/-- The union of different keys with others has different keys. -/
theorem nodup_unionKeys {keys more : List String} (h : keys.Nodup) :
    (unionKeys keys more).Nodup := by
  induction more generalizing keys with
  | nil => exact h
  | cons k more ih =>
    refine ih ?_
    dsimp only
    split_ifs with hk
    · exact h
    · rw [List.nodup_append]
      refine ⟨h, List.nodup_singleton k, fun a ha b hb => ?_⟩
      rw [List.mem_singleton] at hb
      exact fun hab => hk (hb ▸ hab ▸ ha)

/-- **A merged record** is a configured one, with the pins of its discovered record beside its own, or
a discovered one that no configured record is of. -/
theorem mem_mergePeerRecords (h : p ∈ mergePeerRecords bilateral discovered) :
    (∃ c ∈ bilateral, c.instanceId = p.instanceId ∧ c.trustTier = p.trustTier ∧
      (∀ pin ∈ c.pinnedKeys, pin ∈ p.pinnedKeys) ∧ (c.pinnedKeys.Nodup → p.pinnedKeys.Nodup) ∧
        ∀ pin ∈ p.pinnedKeys, pin ∈ c.pinnedKeys ∨
          ∃ d ∈ discovered, d.instanceId = p.instanceId ∧ pin ∈ d.pinnedKeys) ∨
      (p ∈ discovered ∧ ∀ c ∈ bilateral, c.instanceId ≠ p.instanceId) := by
  rcases List.mem_append.mp h with h | h
  · obtain ⟨c, hc, rfl⟩ := List.mem_map.mp h
    refine Or.inl ⟨c, hc, ?_⟩
    cases hfound : discovered.find? fun d => decide (d.instanceId = c.instanceId) with
    | none => exact ⟨rfl, rfl, fun _ hpin => hpin, id, fun _ hpin => Or.inl hpin⟩
    | some d =>
      have hid := List.find?_some hfound
      rw [decide_eq_true_eq] at hid
      refine ⟨rfl, rfl, fun pin hpin => Iff.mpr mem_unionKeys (Or.inl hpin), nodup_unionKeys,
        fun pin hpin => ?_⟩
      rcases Iff.mp mem_unionKeys hpin with hpin | hpin
      · exact Or.inl hpin
      · exact Or.inr ⟨d, List.mem_of_find?_eq_some hfound, hid, hpin⟩
  · obtain ⟨hp, hnew⟩ := List.mem_filter.mp h
    refine Or.inr ⟨hp, fun c hc hid => ?_⟩
    exact of_decide_eq_true hnew (hid ▸ List.mem_map_of_mem hc)

/-- A configured peer has a merged record. -/
theorem exists_mem_mergePeerRecords {c : PeerRecord} (hc : c ∈ bilateral) :
    ∃ p ∈ mergePeerRecords bilateral discovered, p.instanceId = c.instanceId := by
  refine ⟨_, List.mem_append_left _ (List.mem_map_of_mem hc), ?_⟩
  split <;> rfl

/-- The merged records are one of each instance. -/
theorem nodup_mergePeerRecords (hbilateral : (bilateral.map PeerRecord.instanceId).Nodup)
    (hdiscovered : (discovered.map PeerRecord.instanceId).Nodup) :
    ((mergePeerRecords bilateral discovered).map PeerRecord.instanceId).Nodup := by
  have hids : (bilateral.map fun peer =>
      match discovered.find? fun d => decide (d.instanceId = peer.instanceId) with
      | none => peer
      | some fromRegistry =>
        { peer with pinnedKeys := unionKeys peer.pinnedKeys fromRegistry.pinnedKeys }).map
          PeerRecord.instanceId = bilateral.map PeerRecord.instanceId := by
    rw [List.map_map]
    refine List.map_congr_left fun peer _ => ?_
    dsimp only [Function.comp_apply]
    split <;> rfl
  unfold mergePeerRecords
  rw [List.map_append, hids, List.nodup_append]
  refine ⟨hbilateral, (List.filter_sublist.map _).nodup hdiscovered, fun a ha b hb hab => ?_⟩
  obtain ⟨d, hd, rfl⟩ := List.mem_map.mp hb
  exact of_decide_eq_true (List.mem_filter.mp hd).2 (hab ▸ ha)

end Merge

/-! ## The book -/

/-- The peers of an instance, and the learned keys as they were last read. -/
structure PeerBook where
  configured : ConfiguredPeers
  discovered : PeerList
  stored : LearnedKeys
  /-- A wider window than the public tier's is the operator's to grant. -/
  tier : ∀ p ∈ discovered.records, p.trustTier = 0
  /-- No discovered peer pins a key that another configured peer pins. -/
  unclaimed : ∀ p ∈ discovered.records, ∀ q ∈ configured.records, ∀ pin ∈ p.pinnedKeys,
    pin ∈ q.pinnedKeys → q.instanceId = p.instanceId

namespace PeerBook

variable (b : PeerBook)

/-- A book of configured peers, with the keys learned so far. -/
def load (configured : ConfiguredPeers) (stored : LearnedKeys) : PeerBook where
  configured := configured
  discovered := ⟨[], List.nodup_nil⟩
  stored := stored
  tier _ hp := absurd hp List.not_mem_nil
  unclaimed _ hp := absurd hp List.not_mem_nil

/-- Reads the learned keys again. -/
def reload (stored : LearnedKeys) : PeerBook := { b with stored := stored }

/-- Takes the peers that a verified registry sync found. -/
def discover (discovered : PeerList) (self : String) : PeerBook where
  configured := b.configured
  discovered := ⟨discoveredPeers b.configured.records discovered.records self,
    nodup_discoveredPeers self discovered.nodup⟩
  stored := b.stored
  tier _ hp := discoveredPeers_tier hp
  unclaimed _ hp _ hq _ hpin hpin' :=
    discoveredPeers_unclaimed b.configured.exclusive hp hq hpin hpin'

/-- Every peer as pinned, by the operator or the registry. -/
def pinned : List PeerRecord := mergePeerRecords b.configured.records b.discovered.records

/-- The keys that a peer is trusted under by itself. -/
def trusted (peer : PeerRecord) : KeyAnchors := trustedKeys peer (b.stored peer.instanceId)

/-- How many peers would be trusted under a key. -/
def claims (keyId : String) : ℕ := (b.pinned.filter fun peer => (b.trusted peer).has keyId).length

/-- The learned keys of a peer, without those that another peer would claim. -/
def learnedOf (peer : PeerRecord) : KeyAnchors :=
  (b.trusted peer).filter fun e => decide (e.1 ∉ peer.pinnedKeys) && decide (b.claims e.1 = 1)

/-- The keys learned of a peer that are trusted. -/
def learned (instanceId : String) : KeyAnchors :=
  match b.pinned.find? fun peer => decide (peer.instanceId = instanceId) with
  | none => .empty
  | some peer => b.learnedOf peer

/-- Every peer, trusting its pins and learned keys. -/
def all : List PeerRecord := b.pinned.map fun peer => withLearnedKeys peer (b.learnedOf peer)

/-- The registry names a key for an instance. -/
def Registered (instanceId key : String) : Prop :=
  ∃ d ∈ b.discovered.records, d.instanceId = instanceId ∧ key ∈ d.pinnedKeys

/-- A key is pinned for an instance, by the operator or the registry. -/
def Pins (instanceId key : String) : Prop :=
  (∃ c ∈ b.configured.records, c.instanceId = instanceId ∧ key ∈ c.pinnedKeys) ∨
    b.Registered instanceId key

end PeerBook

/-! ## What happens to the book -/

/-- An upkeep of the peers: those that are still to be asked, as they were pinned when it began, and
the one that is being asked, with the keys it is trusted under. -/
structure Upkeep where
  remaining : List PeerRecord
  asked : Option (PeerRecord × KeyAnchors)

/-- An instance's book, the learned keys that are stored and the upkeep that is under way. -/
structure Local where
  book : PeerBook
  learned : LearnedKeys
  upkeep : Option Upkeep

/-- What happens to an instance's book. -/
inductive BookOp where
  /-- The process starts again, with the operator's peers. -/
  | restart (configured : ConfiguredPeers)
  /-- A registry sync is verified. -/
  | discover (discovered : PeerList) (self : String)
  /-- An upkeep begins. -/
  | start
  /-- The next peer's document is asked for. -/
  | ask
  /-- A document is fetched, or is not. -/
  | answer (fetched : Except String ActorDocument)
  /-- The upkeep is over: the learned keys are read again. -/
  | finish

/-- What happens to a book; one upkeep runs at a time. -/
def bookStep (σ : Signatures) (s : Local) : BookOp → Option Local
  | .restart configured => some ⟨.load configured s.learned, s.learned, none⟩
  | .discover discovered self => some { s with book := s.book.discover discovered self }
  | .start =>
    match s.upkeep with
    | none => some { s with upkeep := some ⟨s.book.pinned, none⟩ }
    | some _ => none
  | .ask =>
    match s.upkeep with
    | some ⟨peer :: remaining, none⟩ =>
      some { s with upkeep := some ⟨remaining, some (peer, s.book.learned peer.instanceId)⟩ }
    | _ => none
  | .answer fetched =>
    match s.upkeep with
    | some ⟨remaining, some (peer, learned)⟩ =>
      some { s with
        learned := (refreshPeerCapabilities σ s.learned peer learned fetched).1
        upkeep := some ⟨remaining, none⟩ }
    | _ => none
  | .finish =>
    match s.upkeep with
    | some ⟨[], none⟩ => some { s with book := s.book.reload s.learned, upkeep := none }
    | _ => none

/-! ## What is trusted -/

section Trusted

variable {σ : Signatures} {b : PeerBook} {p q : PeerRecord}

/-- What is pinned is pinned by the operator or the registry. -/
theorem PeerBook.pins_of_mem_pinned (hp : p ∈ b.pinned) {pin : String}
    (hpin : pin ∈ p.pinnedKeys) : b.Pins p.instanceId pin := by
  rcases mem_mergePeerRecords hp with ⟨c, hc, hid, -, -, -, hpins⟩ | ⟨hd, -⟩
  · rcases hpins pin hpin with hpin | hpin
    · exact Or.inl ⟨c, hc, hid, hpin⟩
    · exact Or.inr hpin
  · exact Or.inr ⟨p, hd, rfl, hpin⟩

/-- A key that is pinned for two instances is one that the registry names for both. -/
theorem PeerBook.registered_of_pins {i j key : String} (hi : b.Pins i key) (hj : b.Pins j key)
    (hij : i ≠ j) : b.Registered i key ∧ b.Registered j key := by
  rcases hi with ⟨c, hc, rfl, hkey⟩ | hi
  · rcases hj with ⟨c', hc', rfl, hkey'⟩ | ⟨d, hd, rfl, hkey'⟩
    · exact absurd (b.configured.exclusive c hc c' hc' key hkey hkey') hij
    · exact absurd (b.unclaimed d hd c hc key hkey' hkey) hij
  · rcases hj with ⟨c, hc, rfl, hkey⟩ | hj
    · obtain ⟨d, hd, rfl, hkey'⟩ := hi
      exact absurd (b.unclaimed d hd c hc key hkey' hkey).symm hij
    · exact ⟨hi, hj⟩

/-- A key that is learned of a peer is trusted under it, is none of its pins, and is claimed by no
other. -/
theorem PeerBook.get_learnedOf {k a : String} (h : (b.learnedOf p).get k = some a) :
    (b.trusted p).get k = some a ∧ k ∉ p.pinnedKeys ∧ b.claims k = 1 := by
  unfold PeerBook.learnedOf at h
  rw [OrderedMap.get_filter, Option.filter_eq_some_iff, Bool.and_eq_true, decide_eq_true_eq,
    decide_eq_true_eq] at h
  exact ⟨h.1, h.2.1, h.2.2⟩

/-- What a peer of the book trusts is a pin or a learned key. -/
theorem PeerBook.trusts_cases {k : String} (h : k ∈ (withLearnedKeys p (b.learnedOf p)).pinnedKeys) :
    k ∈ p.pinnedKeys ∨ ∃ a, (b.learnedOf p).get k = some a := by
  obtain ⟨a, ha⟩ := mem_withLearnedKeys h
  exact trustedKeys_sound (P := fun k _ => k ∈ p.pinnedKeys ∨ ∃ a, (b.learnedOf p).get k = some a)
    (fun pin hpin => Or.inl hpin) (fun k a hk _ => Or.inr ⟨a, hk⟩) k a ha

/-- What two peers of the book trust is pinned for both. -/
theorem PeerBook.pinned_of_shared {k : String} (hp : p ∈ b.pinned) (hq : q ∈ b.pinned)
    (hpq : p.instanceId ≠ q.instanceId)
    (hk : k ∈ (withLearnedKeys p (b.learnedOf p)).pinnedKeys)
    (hk' : k ∈ (withLearnedKeys q (b.learnedOf q)).pinnedKeys) : k ∈ p.pinnedKeys := by
  rcases trusts_cases hk with hpin | ⟨a, ha⟩
  · exact hpin
  · obtain ⟨htrusted, -, hclaims⟩ := get_learnedOf ha
    have htrusted' : ∃ a', (b.trusted q).get k = some a' := by
      rcases trusts_cases hk' with hpin | ⟨a', ha'⟩
      · exact ⟨k, trustedKeys_pin hpin⟩
      · exact ⟨a', (get_learnedOf ha').1⟩
    obtain ⟨a', htrusted'⟩ := htrusted'
    -- both peers would claim the key
    have hmem : p ∈ b.pinned.filter fun peer => (b.trusted peer).has k :=
      List.mem_filter.mpr ⟨hp, by simp [OrderedMap.has, htrusted]⟩
    have hmem' : q ∈ b.pinned.filter fun peer => (b.trusted peer).has k :=
      List.mem_filter.mpr ⟨hq, by simp [OrderedMap.has, htrusted']⟩
    obtain ⟨r, hr⟩ := List.length_eq_one_iff.mp hclaims
    rw [hr, List.mem_singleton] at hmem hmem'
    exact absurd (congrArg PeerRecord.instanceId (hmem.trans hmem'.symm)) hpq

/-! ## Chains lead back to pins -/

/-- Each key leads back to its anchor. -/
def LeadsBack (σ : Signatures) (instanceId : String) (keys : KeyAnchors) : Prop :=
  ∀ k a, keys.get k = some a → Leads σ instanceId a k

/-- So does each trusted key, where the learned ones do. -/
theorem LeadsBack.trustedKeys {learned : KeyAnchors} (h : LeadsBack σ p.instanceId learned) :
    LeadsBack σ p.instanceId (trustedKeys p learned) :=
  trustedKeys_sound (fun _ _ => Relation.ReflTransGen.refl) fun k a hget _ => h k a hget

/-- So does each chained key, where the trusted ones do. -/
theorem LeadsBack.chainedActorKeys {instanceId : String} {trusted : KeyAnchors}
    (h : LeadsBack σ instanceId trusted) (served : List ServedKey) :
    LeadsBack σ instanceId (chainedActorKeys σ served instanceId trusted) := by
  intro k a hget
  refine chainedActorKeys_sound (P := fun k a => Leads σ instanceId a k) h
    (fun key _ k endorsement a _ _ hverified hby => ?_) hget
  exact Relation.ReflTransGen.tail hby ⟨endorsement, rfl, hverified⟩

/-- **What a peer of the book trusts leads back to one of its pins.** -/
theorem PeerBook.leads_of_trusts (h : LeadsBack σ p.instanceId (b.stored p.instanceId)) {k : String}
    (hk : k ∈ (withLearnedKeys p (b.learnedOf p)).pinnedKeys) :
    ∃ pin ∈ p.pinnedKeys, Leads σ p.instanceId pin k := by
  obtain ⟨a, ha⟩ := mem_withLearnedKeys hk
  refine trustedKeys_sound (P := fun k _ => ∃ pin ∈ p.pinnedKeys, Leads σ p.instanceId pin k)
    (fun pin hpin => ⟨pin, hpin, Relation.ReflTransGen.refl⟩) (fun k a hget hanchor => ?_) k a ha
  obtain ⟨-, pin, hpin, hleads⟩ := hanchor
  exact ⟨pin, hpin, hleads.trans (h.trustedKeys k a (get_learnedOf hget).1)⟩

/-- What is stored, read and asked with leads back to its anchors. -/
structure BacksUp (σ : Signatures) (s : Local) : Prop where
  stored : ∀ id, LeadsBack σ id (s.learned id)
  read : ∀ id, LeadsBack σ id (s.book.stored id)
  asked : ∀ u ∈ s.upkeep, ∀ e ∈ u.asked, LeadsBack σ e.1.instanceId e.2

/-- What a book has learned leads back to its anchors. -/
theorem PeerBook.leadsBack_learned (h : ∀ id, LeadsBack σ id (b.stored id)) (id : String) :
    LeadsBack σ id (b.learned id) := by
  intro k a hget
  unfold PeerBook.learned at hget
  cases hfound : b.pinned.find? fun peer => decide (peer.instanceId = id) with
  | none => simp [hfound] at hget
  | some peer =>
    have hid := List.find?_some hfound
    rw [decide_eq_true_eq] at hid
    rw [hfound] at hget
    subst hid
    exact (h peer.instanceId).trustedKeys k a (get_learnedOf hget).1

/-- **What happens to a book keeps that what it learned leads back**, whatever is served. -/
theorem BacksUp.step {s s' : Local} {op : BookOp} (h : BacksUp σ s)
    (hstep : bookStep σ s op = some s') : BacksUp σ s' := by
  cases op with
  | restart configured =>
    obtain rfl := Option.some.inj hstep
    exact ⟨h.stored, h.stored, fun u hu => by cases hu⟩
  | discover discovered self =>
    obtain rfl := Option.some.inj hstep
    exact ⟨h.stored, h.read, h.asked⟩
  | start =>
    cases hupkeep : s.upkeep with
    | some u => simp [bookStep, hupkeep] at hstep
    | none =>
      obtain rfl : _ = s' := by simpa [bookStep, hupkeep] using hstep
      refine ⟨h.stored, h.read, fun u hu e he => ?_⟩
      obtain rfl := Option.some.inj hu
      cases he
  | ask =>
    rcases hupkeep : s.upkeep with _ | ⟨_ | ⟨peer, remaining⟩, _ | asked⟩
    · simp [bookStep, hupkeep] at hstep
    · simp [bookStep, hupkeep] at hstep
    · simp [bookStep, hupkeep] at hstep
    · obtain rfl : _ = s' := by simpa [bookStep, hupkeep] using hstep
      refine ⟨h.stored, h.read, fun u hu e he => ?_⟩
      obtain rfl := Option.some.inj hu
      obtain rfl := Option.some.inj he
      exact PeerBook.leadsBack_learned h.read _
    · simp [bookStep, hupkeep] at hstep
  | answer fetched =>
    rcases hupkeep : s.upkeep with _ | ⟨remaining, _ | ⟨peer, learned⟩⟩
    · simp [bookStep, hupkeep] at hstep
    · simp [bookStep, hupkeep] at hstep
    · obtain rfl : _ = s' := by simpa [bookStep, hupkeep] using hstep
      have hasked : LeadsBack σ peer.instanceId learned := h.asked _ hupkeep _ rfl
      refine ⟨fun id => ?_, h.read, fun u hu e he => ?_⟩
      · rcases refreshPeerCapabilities_spec σ peer learned s.learned fetched with ⟨-, hsame⟩ | ⟨actor, -, -, -, hstored⟩
        · dsimp only
          rw [hsame]
          exact h.stored id
        · dsimp only
          rw [hstored]
          intro k a hget
          rw [get_storeLearnedKeys] at hget
          split_ifs at hget with hid
          · subst hid
            exact hasked.trustedKeys.chainedActorKeys actor.publicKey k a hget
          · exact h.stored id k a hget
      · obtain rfl := Option.some.inj hu
        cases he
  | finish =>
    rcases hupkeep : s.upkeep with _ | ⟨_ | ⟨peer, remaining⟩, _ | asked⟩
    · simp [bookStep, hupkeep] at hstep
    · obtain rfl : _ = s' := by simpa [bookStep, hupkeep] using hstep
      exact ⟨h.stored, h.stored, fun u hu => by cases hu⟩
    · simp [bookStep, hupkeep] at hstep
    · simp [bookStep, hupkeep] at hstep
    · simp [bookStep, hupkeep] at hstep

end Trusted

/-! ## Every run -/

/-- An instance of configured peers that has learned nothing yet. -/
def Local.init (configured : ConfiguredPeers) : Local :=
  ⟨.load configured fun _ => .empty, fun _ => .empty, none⟩

/-- What a peer of a book trusts: keys that lead back to a pin, each trusted for no other peer but
one for which the registry names it as well, and no wider tier than the operator grants. -/
structure PeerBook.Trusts (σ : Signatures) (b : PeerBook) (peer : PeerRecord) : Prop where
  leads : ∀ key ∈ peer.pinnedKeys, ∃ pin, b.Pins peer.instanceId pin ∧
    Leads σ peer.instanceId pin key
  exclusive : ∀ key ∈ peer.pinnedKeys, ∀ other ∈ b.all, key ∈ other.pinnedKeys →
    other.instanceId = peer.instanceId ∨
      (b.Registered peer.instanceId key ∧ b.Registered other.instanceId key)
  tier : peer.trustTier = 0 ∨ ∃ c ∈ b.configured.records, c.instanceId = peer.instanceId ∧
    c.trustTier = peer.trustTier

/-- **Every key that is trusted leads back to a pin.**  Whatever the peers serve, however restarts,
registry syncs and upkeep fall: a key that is trusted of a peer leads back, by endorsements that
verify for that peer, to a key that the operator or the registry pins for it now; no key is trusted
for two peers that the registry does not name for both; and no peer is given a wider tier than the
operator gives it. -/
theorem trusted_runs {σ : Signatures} {configured : ConfiguredPeers} {ops : List BookOp} {s : Local}
    (hrun : Transition.run (bookStep σ) (.init configured) ops = some s) {peer : PeerRecord}
    (hpeer : peer ∈ s.book.all) : s.book.Trusts σ peer := by
  have hempty : ∀ id, LeadsBack σ id .empty := fun id k a hget => absurd hget (by simp)
  have hinit : BacksUp σ (.init configured) :=
    ⟨hempty, hempty, fun u hu => absurd hu (by simp [Local.init])⟩
  have hbacks : BacksUp σ s :=
    Transition.run_invariant (fun s op s' hs hstep => hs.step hstep) hinit hrun
  obtain ⟨p, hp, rfl⟩ := List.mem_map.mp hpeer
  obtain ⟨hid, -, htier⟩ := withLearnedKeys_spec p (s.book.learnedOf p)
  refine ⟨fun key hkey => ?_, fun key hkey other hother hkey' => ?_, ?_⟩
  · rw [hid]
    obtain ⟨pin, hpin, hleads⟩ := PeerBook.leads_of_trusts (hbacks.read p.instanceId) hkey
    exact ⟨pin, PeerBook.pins_of_mem_pinned hp hpin, hleads⟩
  · obtain ⟨q, hq, rfl⟩ := List.mem_map.mp hother
    obtain ⟨hid', -, -⟩ := withLearnedKeys_spec q (s.book.learnedOf q)
    rw [hid, hid']
    by_cases hpq : p.instanceId = q.instanceId
    · exact Or.inl hpq.symm
    · exact Or.inr (PeerBook.registered_of_pins
        (PeerBook.pins_of_mem_pinned hp (PeerBook.pinned_of_shared hp hq hpq hkey hkey'))
        (PeerBook.pins_of_mem_pinned hq (PeerBook.pinned_of_shared hq hp (Ne.symm hpq) hkey' hkey))
        hpq)
  · rw [hid, htier]
    rcases mem_mergePeerRecords hp with ⟨c, hc, hcid, hctier, -⟩ | ⟨hd, -⟩
    · exact Or.inr ⟨c, hc, hcid, hctier⟩
    · exact Or.inl (s.book.tier p hd)

/-! ## Samples -/

/-- Signatures that name their key and message. -/
def sampleSignatures : Signatures where
  sign keyId message := keyId ++ "/" ++ message
  verify keyId signature message := decide (signature = keyId ++ "/" ++ message)

/-- A peer with one pin. -/
def samplePeers : ConfiguredPeers where
  records := [⟨"b.example", "https://b.example/actor", 1, ["k0"]⟩]
  nodup := List.nodup_singleton _
  exclusive p hp q hq _ _ _ := by
    rw [List.mem_singleton.mp hp, List.mem_singleton.mp hq]

/-- A key endorsed by another. -/
def sampleServed (by_ keyId : String) : ServedKey :=
  let message := endorsementMessage "b.example" keyId
  ⟨some keyId, some ⟨by_, sampleSignatures.sign by_ message, sampleSignatures.sign keyId message⟩⟩

/-- A document of two rotations, the newest key first, and a key that nobody endorsed. -/
def sampleActor : ActorDocument :=
  ⟨some "https://b.example/actor",
    [sampleServed "k1" "k2", sampleServed "k0" "k1", ⟨some "x", none⟩], none⟩

/-- A peer is followed through two rotations, and its unendorsed key is not trusted. -/
theorem trusted_runs_sample :
    ∃ s peer, Transition.run (bookStep sampleSignatures) (.init samplePeers)
        [.start, .ask, .answer (.ok sampleActor), .finish] = some s ∧
      peer ∈ s.book.all ∧ peer.pinnedKeys = ["k0", "k2", "k1"] ∧
        s.book.Trusts sampleSignatures peer := by
  have hrun : Transition.run (bookStep sampleSignatures) (.init samplePeers)
      [.start, .ask, .answer (.ok sampleActor), .finish] = some _ := rfl
  refine ⟨_, ⟨"b.example", "https://b.example/actor", 1, ["k0", "k2", "k1"]⟩, hrun, ?_, rfl,
    trusted_runs hrun ?_⟩
  · decide
  · decide

end OpenConditions.Federation

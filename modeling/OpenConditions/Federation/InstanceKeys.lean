import OpenConditions.Lib.Civil
import OpenConditions.Lib.Sorting
import Mathlib.Data.List.Chain
import Mathlib.Tactic.Linarith

set_option relaxedAutoImplicit false
set_option autoImplicit false

/-!
# The keys of an instance

The signing keys of an instance over its life (`packages/federation/src/keys.ts`): a key is valid
for six months, is replaced once it has less than a month left, and is endorsed by the key before it.
Times are in milliseconds.

## Main definitions

* `Signatures` — signing and verification.
* `KeyEndorsement`, `verifyEndorsement` — one key's statement that another is the next.
* `rotateIn`, `maintainInstanceKey` — the table of keys after a rotation and after upkeep.
* `signingKeyOf` — the key that signs.

## Main results

* `le_addMonths` — six months are longer than the lead and the overlap of a rotation.
* `Rotated.rotateIn`, `Lasts.maintainInstanceKey` — rotations keep the chain of keys, and upkeep its
  newest key valid.
* `signingKeyOf_spec` — the key that signs has been served for the publication lead, or is the first.
-/

namespace OpenConditions.Federation

/-! ## Times -/

/-- A day. -/
def dayMs : ℤ := 86400000

/-- Default instance key validity, in calendar months. -/
def instanceKeyValidityMonths : ℕ := 6

/-- Minimum old-key overlap after a rotation, in days. -/
def rotationOverlapDays : ℤ := 30

/-- A key is rotated once the newest has less than this many days left. -/
def keyRotationLeadDays : ℤ := 30

/-- How long a new key is served before it signs, in days. -/
def keyPublicationLeadDays : ℤ := 7

/-- Calendar-month addition; days past the end of a month run on into the next one. -/
def addMonths (base : ℤ) (months : ℕ) : ℤ :=
  let date := Civil.civil (base / dayMs)
  let month := date.month - 1 + months
  Civil.Date.days ⟨date.year + (month / 12 : ℕ), month % 12 + 1, date.day⟩ * dayMs + base % dayMs

/-! ## Endorsements -/

/-- Signing under the private key of a key id, and verification.  A key that cannot be read verifies
nothing. -/
structure Signatures where
  sign : String → String → String
  verify : String → String → String → Bool

/-- The previous key's statement that a key is the instance's next, and the key's own. -/
structure KeyEndorsement where
  by_ : String
  signature : String
  proof : String
  deriving DecidableEq, Repr

/-- The bytes an endorsement signs. -/
def endorsementMessage (instanceId keyId : String) : String :=
  "openconditions-federation key endorsement\n" ++ instanceId ++ "\n" ++ keyId

/-- An endorsement says, under the endorsing key and under the key itself, that the key is the
instance's next. -/
def verifyEndorsement (σ : Signatures) (instanceId keyId : String) (endorsement : KeyEndorsement) :
    Bool :=
  let message := endorsementMessage instanceId keyId
  σ.verify endorsement.by_ endorsement.signature message &&
    σ.verify keyId endorsement.proof message

/-! ## Keys -/

/-- An instance signing identity; the key id is its public key. -/
structure InstanceKey where
  keyId : String
  notBefore : ℤ
  notAfter : ℤ
  /-- Absent only for an instance's first key. -/
  endorsement : Option KeyEndorsement
  deriving DecidableEq, Repr

/-- A key pair, valid from now, endorsed by the endorser if one is given. -/
def generateInstanceKey (σ : Signatures) (keyId : String) (now : ℤ) (validityMonths : ℕ)
    (endorser : Option (InstanceKey × String)) : InstanceKey where
  keyId := keyId
  notBefore := now
  notAfter := addMonths now validityMonths
  endorsement := endorser.map fun e =>
    let message := endorsementMessage e.2 keyId
    ⟨e.1.keyId, σ.sign e.1.keyId message, σ.sign keyId message⟩

/-- Stores a key; one that is stored already stays as it is. -/
def insertInstanceKey (t : List InstanceKey) (key : InstanceKey) : List InstanceKey :=
  if key.keyId ∈ t.map InstanceKey.keyId then t else key :: t

/-- The keys in the order of their minting, newest first. -/
def newestFirst (t : List InstanceKey) : List InstanceKey :=
  Sorting.sortBy (fun a b => decide (b.notBefore ≤ a.notBefore)) t

/-- A key is valid now. -/
def InstanceKey.isActive (now : ℤ) (k : InstanceKey) : Bool :=
  decide (k.notBefore ≤ now ∧ now < k.notAfter)

/-- Every key valid now, newest first. -/
def loadActiveKeys (t : List InstanceKey) (now : ℤ) : List InstanceKey :=
  newestFirst (t.filter (InstanceKey.isActive now))

/-- The newest key ever stored, valid or not. -/
def loadLatestKey (t : List InstanceKey) : Option InstanceKey := (newestFirst t).head?

/-- The key that an instance signs with: the newest one served for the publication lead, else the
oldest active one. -/
def signingKeyOf (active : List InstanceKey) (now : ℤ) : Option InstanceKey :=
  let published := now - keyPublicationLeadDays * dayMs
  (active.find? fun key => decide (key.notBefore ≤ published)).or active.getLast?

/-- An old key stays valid through the overlap. -/
def overlapped (keyId : String) (at_ : ℤ) (k : InstanceKey) : InstanceKey :=
  let overlapEnd := at_ + rotationOverlapDays * dayMs
  if k.keyId ≠ keyId ∧ k.notBefore ≤ at_ ∧ at_ < k.notAfter ∧ k.notAfter < overlapEnd then
    { k with notAfter := overlapEnd }
  else k

/-- The table after a rotation, and the new key. -/
def rotateIn (σ : Signatures) (t : List InstanceKey) (fresh : String) (now : ℤ)
    (instanceId : String) (validityMonths : ℕ) : List InstanceKey × InstanceKey :=
  let key := generateInstanceKey σ fresh now validityMonths
    ((loadLatestKey t).map fun latest => (latest, instanceId))
  ((insertInstanceKey t key).map (overlapped key.keyId now), key)

/-- What upkeep did. -/
inductive KeyMaintenance where
  | current (expiresAt : ℤ)
  | created (key : InstanceKey)
  | rotated (key : InstanceKey)
  deriving DecidableEq, Repr

/-- The table after upkeep: the first key on first boot, a rotation once the newest key has less than
the rotation lead left or none is valid, and nothing otherwise. -/
def maintainInstanceKey (σ : Signatures) (t : List InstanceKey) (fresh : String) (now : ℤ)
    (instanceId : String) : List InstanceKey × KeyMaintenance :=
  let rotated :=
    if (loadLatestKey t).isNone then
      let key := generateInstanceKey σ fresh now instanceKeyValidityMonths none
      (insertInstanceKey t key, .created key)
    else
      let r := rotateIn σ t fresh now instanceId instanceKeyValidityMonths
      (r.1, .rotated r.2)
  match (loadActiveKeys t now).head? with
  | some newest =>
    if keyRotationLeadDays * dayMs < newest.notAfter - now then (t, .current newest.notAfter)
    else rotated
  | none => rotated

/-! ## Six months -/

/-- Six months from any month are 181 days or more, whichever of the years is a leap year. -/
theorem sixMonths_days : ∀ leap leap' : Bool, ∀ m < 13, 1 ≤ m →
    if m - 1 + 6 < 12 then Civil.monthStart leap m + 181 ≤ Civil.monthStart leap (m + 6)
    else Civil.monthStart leap m + 181 ≤
      Civil.yearLength leap + Civil.monthStart leap' (m - 6) := by
  decide

/-- **Six months are 181 days or more.** -/
theorem le_addMonths (base : ℤ) : base + 181 * dayMs ≤ addMonths base instanceKeyValidityMonths := by
  have hdays := Civil.days_civil (base / dayMs)
  obtain ⟨hone, htwelve, -, -⟩ := Civil.isValid_civil (base / dayMs)
  have hsplit := Int.mul_ediv_add_emod base dayMs
  unfold addMonths instanceKeyValidityMonths
  dsimp only
  generalize Civil.civil (base / dayMs) = date at *
  obtain ⟨y, m, day⟩ := date
  dsimp only at hdays hone htwelve ⊢
  have hsix := sixMonths_days (Civil.isLeap y) (Civil.isLeap (y + 1)) m (by omega) hone
  have hlater : base / dayMs + 181 ≤
      Civil.Date.days ⟨y + ((m - 1 + 6) / 12 : ℕ), (m - 1 + 6) % 12 + 1, day⟩ := by
    rw [← hdays]
    unfold Civil.Date.days
    dsimp only
    split_ifs at hsix with hwraps
    · have hyear : (m - 1 + 6) / 12 = 0 := by omega
      have hmonth : (m - 1 + 6) % 12 + 1 = m + 6 := by omega
      rw [hyear, hmonth]
      simp only [Nat.cast_zero, add_zero]
      omega
    · have hyear : (m - 1 + 6) / 12 = 1 := by omega
      have hmonth : (m - 1 + 6) % 12 + 1 = m - 6 := by omega
      rw [hyear, hmonth, Nat.cast_one, Civil.yearStart_add_yearLength]
      omega
  unfold dayMs at *
  omega

/-! ## The chain of keys -/

/-- A key and the one before it: minted later, within the older one's overlap, and endorsed by it. -/
structure Succeeds (σ : Signatures) (instanceId : String) (k l : InstanceKey) : Prop where
  later : l.notBefore < k.notBefore
  overlaps : k.notBefore + rotationOverlapDays * dayMs ≤ l.notAfter
  endorsed : ∃ e, k.endorsement = some e ∧ e.by_ = l.keyId ∧
    verifyEndorsement σ instanceId k.keyId e = true

/-- A table of keys, newest first, each endorsed by the one before it. -/
structure Rotated (σ : Signatures) (instanceId : String) (t : List InstanceKey) (now : ℤ) : Prop where
  ids : (t.map InstanceKey.keyId).Nodup
  chain : t.IsChain (Succeeds σ instanceId)
  past : ∀ k ∈ t, k.notBefore ≤ now

/-- The newest key is valid for longer than the rotation lead. -/
def Lasts (t : List InstanceKey) (maintained : ℤ) : Prop :=
  ∃ k ∈ t.head?, maintained + keyRotationLeadDays * dayMs < k.notAfter

section Table

variable {σ : Signatures} {instanceId fresh : String} {t : List InstanceKey} {now at_ : ℤ}

/-- Each key was minted before the ones that stand before it. -/
theorem Rotated.pairwise (h : Rotated σ instanceId t now) :
    t.Pairwise fun k l => l.notBefore < k.notBefore := by
  have htrans : IsTrans InstanceKey fun k l => l.notBefore < k.notBefore :=
    ⟨fun _ _ _ hab hbc => hbc.trans hab⟩
  exact List.isChain_iff_pairwise.mp (h.chain.imp fun _ _ hkl => hkl.later)

/-- The table stands newest first. -/
theorem newestFirst_eq (h : t.Pairwise fun k l => l.notBefore < k.notBefore) :
    newestFirst t = t := by
  refine Sorting.sortBy_eq_self ⟨fun a b => ?_, fun a b c hab hbc => ?_⟩ (h.imp fun hlt => ?_)
  · rw [decide_eq_true_eq, decide_eq_true_eq]
    exact le_total _ _
  · rw [decide_eq_true_eq] at hab hbc ⊢
    exact hbc.trans hab
  · rw [decide_eq_true_eq]
    exact hlt.le

/-- The active keys in the order of the table. -/
theorem Rotated.loadActiveKeys_eq (h : Rotated σ instanceId t now) (at_ : ℤ) :
    loadActiveKeys t at_ = t.filter (InstanceKey.isActive at_) :=
  newestFirst_eq (h.pairwise.filter _)

/-- The latest key stands first. -/
theorem Rotated.loadLatestKey_eq (h : Rotated σ instanceId t now) : loadLatestKey t = t.head? := by
  unfold loadLatestKey
  rw [newestFirst_eq h.pairwise]

/-- An overlap changes nothing of a key but its end, which it never takes back, and that of a key
that is not valid not at all. -/
theorem overlapped_spec (keyId : String) (at_ : ℤ) (k : InstanceKey) :
    (overlapped keyId at_ k).keyId = k.keyId ∧ (overlapped keyId at_ k).notBefore = k.notBefore ∧
      (overlapped keyId at_ k).endorsement = k.endorsement ∧
        k.notAfter ≤ (overlapped keyId at_ k).notAfter ∧
          ((overlapped keyId at_ k).notAfter = k.notAfter ∨ at_ < k.notAfter) := by
  unfold overlapped
  dsimp only
  split_ifs with h
  · exact ⟨rfl, rfl, rfl, h.2.2.2.le, Or.inr h.2.2.1⟩
  · exact ⟨rfl, rfl, rfl, le_rfl, Or.inl rfl⟩

/-- A key that is valid at a rotation stays valid through the overlap. -/
theorem le_overlapped {keyId : String} {k : InstanceKey} (hid : k.keyId ≠ keyId)
    (hactive : k.isActive at_ = true) :
    at_ + rotationOverlapDays * dayMs ≤ (overlapped keyId at_ k).notAfter := by
  obtain ⟨hbefore, hafter⟩ := of_decide_eq_true hactive
  unfold overlapped
  dsimp only
  split_ifs with h
  · exact le_rfl
  · by_contra hlt
    exact h ⟨hid, hbefore, hafter, lt_of_not_ge hlt⟩

/-- Overlaps leave the chain as it is. -/
theorem Succeeds.overlapped {k l : InstanceKey} (h : Succeeds σ instanceId k l) (keyId : String)
    (at_ : ℤ) : Succeeds σ instanceId (overlapped keyId at_ k) (overlapped keyId at_ l) := by
  obtain ⟨hkid, hkbefore, hkendorsed, -, -⟩ := overlapped_spec keyId at_ k
  obtain ⟨hlid, hlbefore, -, hlafter, -⟩ := overlapped_spec keyId at_ l
  refine ⟨?_, ?_, ?_⟩
  · rw [hkbefore, hlbefore]
    exact h.later
  · rw [hkbefore]
    exact h.overlaps.trans hlafter
  · rw [hkid, hkendorsed, hlid]
    exact h.endorsed

/-- The key that a rotation mints. -/
def mintedBy (σ : Signatures) (t : List InstanceKey) (fresh : String) (now : ℤ)
    (instanceId : String) (validityMonths : ℕ) : InstanceKey :=
  generateInstanceKey σ fresh now validityMonths
    ((loadLatestKey t).map fun latest => (latest, instanceId))

/-- A rotation puts the new key first, and the others through the overlap. -/
theorem rotateIn_eq (hfresh : fresh ∉ t.map InstanceKey.keyId) (validityMonths : ℕ) :
    (rotateIn σ t fresh now instanceId validityMonths).1 =
      mintedBy σ t fresh now instanceId validityMonths :: t.map (overlapped fresh now) := by
  have hkept : overlapped fresh now (mintedBy σ t fresh now instanceId validityMonths) =
      mintedBy σ t fresh now instanceId validityMonths := by
    unfold overlapped
    exact if_neg fun h => h.1 rfl
  unfold rotateIn insertInstanceKey
  dsimp only [generateInstanceKey]
  rw [if_neg hfresh, List.map_cons]
  exact congrArg (· :: _) hkept

/-- The endorsement of a minted key verifies. -/
theorem verifyEndorsement_minted
    (hσ : ∀ keyId message, σ.verify keyId (σ.sign keyId message) message = true)
    {latest : InstanceKey} (hlatest : loadLatestKey t = some latest) (validityMonths : ℕ) :
    ∃ e, (mintedBy σ t fresh now instanceId validityMonths).endorsement = some e ∧
      e.by_ = latest.keyId ∧ verifyEndorsement σ instanceId fresh e = true := by
  let message := endorsementMessage instanceId fresh
  refine ⟨⟨latest.keyId, σ.sign latest.keyId message, σ.sign fresh message⟩, ?_, rfl, ?_⟩
  · unfold mintedBy generateInstanceKey
    rw [hlatest]
    rfl
  · unfold verifyEndorsement
    rw [Bool.and_eq_true]
    exact ⟨hσ _ _, hσ _ _⟩

/-- An overlap keeps a table's ids. -/
theorem ids_overlapped (t : List InstanceKey) (keyId : String) (at_ : ℤ) :
    (t.map (overlapped keyId at_)).map InstanceKey.keyId = t.map InstanceKey.keyId := by
  rw [List.map_map]
  exact List.map_congr_left fun k _ => (overlapped_spec keyId at_ k).1

/-- **A rotation keeps the chain of keys** while the newest key is valid. -/
theorem Rotated.rotateIn
    (hσ : ∀ keyId message, σ.verify keyId (σ.sign keyId message) message = true)
    (h : Rotated σ instanceId t at_) (hfresh : fresh ∉ t.map InstanceKey.keyId)
    {newest : InstanceKey} (hnewest : t.head? = some newest) (hlater : newest.notBefore < now)
    (hvalid : now < newest.notAfter) (hnow : at_ ≤ now) (validityMonths : ℕ) :
    Rotated σ instanceId (rotateIn σ t fresh now instanceId validityMonths).1 now := by
  rw [rotateIn_eq hfresh]
  refine ⟨?_, ?_, ?_⟩
  · rw [List.map_cons, List.nodup_cons, ids_overlapped]
    exact ⟨hfresh, h.ids⟩
  · rw [List.isChain_cons]
    refine ⟨fun l hl => ?_, ?_⟩
    · rw [List.head?_map, hnewest] at hl
      obtain rfl := Option.some.inj hl
      obtain ⟨hid, hbefore, -, -, -⟩ := overlapped_spec fresh now newest
      have hne : newest.keyId ≠ fresh := by
        rintro rfl
        exact hfresh (List.mem_map_of_mem (List.mem_of_head? hnewest))
      refine ⟨?_, le_overlapped hne (decide_eq_true ⟨hlater.le, hvalid⟩), ?_⟩
      · rw [hbefore]
        exact hlater
      · rw [hid]
        exact verifyEndorsement_minted hσ (h.loadLatestKey_eq.trans hnewest) validityMonths
    · exact List.isChain_map_of_isChain _ (fun k l hkl => hkl.overlapped fresh now) h.chain
  · intro k hk
    rcases List.mem_cons.mp hk with rfl | hk
    · exact le_rfl
    · obtain ⟨l, hl, rfl⟩ := List.mem_map.mp hk
      rw [(overlapped_spec fresh now l).2.1]
      exact (h.past l hl).trans hnow

/-- A rotation's new key is valid for longer than the rotation lead. -/
theorem Lasts.rotateIn (hfresh : fresh ∉ t.map InstanceKey.keyId) :
    Lasts (rotateIn σ t fresh now instanceId instanceKeyValidityMonths).1 now := by
  rw [rotateIn_eq hfresh]
  refine ⟨_, rfl, lt_of_lt_of_le ?_ (le_addMonths now)⟩
  unfold keyRotationLeadDays dayMs
  omega

/-- **Upkeep leaves the table, or rotates when the newest key has no more than the rotation lead
left**, and the newest key is then valid for longer than that. -/
theorem maintainInstanceKey_spec (h : Rotated σ instanceId t at_) {newest : InstanceKey}
    (hnewest : t.head? = some newest) (hactive : newest.isActive now = true)
    (hfresh : fresh ∉ t.map InstanceKey.keyId) :
    ((maintainInstanceKey σ t fresh now instanceId).1 = t ∨
      (newest.notAfter - now ≤ keyRotationLeadDays * dayMs ∧
        (maintainInstanceKey σ t fresh now instanceId).1 =
          (Federation.rotateIn σ t fresh now instanceId instanceKeyValidityMonths).1)) ∧
      Lasts (maintainInstanceKey σ t fresh now instanceId).1 now := by
  have hfirst : (loadActiveKeys t now).head? = some newest := by
    obtain ⟨rest, rfl⟩ := List.head?_eq_some_iff.mp hnewest
    rw [h.loadActiveKeys_eq, List.filter_cons_of_pos hactive, List.head?_cons]
  unfold maintainInstanceKey
  dsimp only
  rw [hfirst, h.loadLatestKey_eq, hnewest]
  dsimp only [Option.isNone_some]
  split_ifs with hlead hnone
  · refine ⟨Or.inl rfl, newest, hnewest, ?_⟩
    linarith
  · cases hnone
  · exact ⟨Or.inr ⟨not_lt.mp hlead, rfl⟩, Lasts.rotateIn hfresh⟩

/-- **The key that signs** is valid, and has been served for the publication lead or is the first
key of all. -/
theorem signingKeyOf_spec (h : Rotated σ instanceId t at_) {key : InstanceKey}
    (hkey : signingKeyOf (loadActiveKeys t now) now = some key) :
    key ∈ t ∧ key.isActive now = true ∧
      (key.notBefore ≤ now - keyPublicationLeadDays * dayMs ∨ t.getLast? = some key) := by
  rw [h.loadActiveKeys_eq] at hkey
  unfold signingKeyOf at hkey
  dsimp only at hkey
  cases hfound : (t.filter (InstanceKey.isActive now)).find? fun key =>
      decide (key.notBefore ≤ now - keyPublicationLeadDays * dayMs) with
  | some k =>
    rw [hfound, Option.some_or] at hkey
    obtain rfl := Option.some.inj hkey
    have hpublished := List.find?_some hfound
    obtain ⟨hmem, hactive⟩ := List.mem_filter.mp (List.mem_of_find?_eq_some hfound)
    exact ⟨hmem, hactive, Or.inl (of_decide_eq_true hpublished)⟩
  | none =>
    rw [hfound, Option.none_or] at hkey
    obtain ⟨hmem, hactive⟩ := List.mem_filter.mp (List.mem_of_getLast? hkey)
    refine ⟨hmem, hactive, Or.inr ?_⟩
    have hrecent := List.find?_eq_none.mp hfound key (List.mem_of_getLast? hkey)
    rw [decide_eq_true_eq, not_le] at hrecent
    obtain ⟨newer, older, rfl⟩ := List.append_of_mem hmem
    cases older with
    | nil => simp
    | cons l rest =>
      -- The key before it is still valid, so that one would stand last.
      have hsucceeds : Succeeds σ instanceId key l :=
        (List.isChain_append_cons_cons.mp h.chain).2.1
      obtain ⟨hbefore, -⟩ := of_decide_eq_true hactive
      have hvalid : l.isActive now = true := by
        refine decide_eq_true ⟨(hsucceeds.later.trans_le hbefore).le, ?_⟩
        have hoverlaps := hsucceeds.overlaps
        unfold rotationOverlapDays dayMs at hoverlaps
        unfold keyPublicationLeadDays dayMs at hrecent
        omega
      rw [List.filter_append, List.filter_cons_of_pos hactive, List.filter_cons_of_pos hvalid,
        List.getLast?_append_cons, List.getLast?_cons_cons] at hkey
      have hlast : key ∈ l :: rest := by
        rcases List.mem_cons.mp (List.mem_of_getLast? hkey) with rfl | hrest
        · exact List.mem_cons_self ..
        · exact List.mem_cons_of_mem _ (List.mem_of_mem_filter hrest)
      have hpairwise := (List.pairwise_append.mp h.pairwise).2.1
      exact absurd ((List.pairwise_cons.mp hpairwise).1 key hlast) (lt_irrefl _)

/-- A valid newest key leaves an instance with a key to sign with. -/
theorem exists_signingKey (h : Rotated σ instanceId t at_) {newest : InstanceKey}
    (hnewest : t.head? = some newest) (hactive : newest.isActive now = true) :
    ∃ key, signingKeyOf (loadActiveKeys t now) now = some key := by
  obtain ⟨rest, rfl⟩ := List.head?_eq_some_iff.mp hnewest
  rw [h.loadActiveKeys_eq, List.filter_cons_of_pos hactive]
  unfold signingKeyOf
  dsimp only
  cases List.find? (fun key => decide (key.notBefore ≤ now - keyPublicationLeadDays * dayMs))
      (newest :: List.filter (InstanceKey.isActive now) rest) with
  | some key => exact ⟨key, rfl⟩
  | none => exact ⟨_, Option.none_or.trans (List.getLast?_eq_some_getLast (List.cons_ne_nil _ _))⟩

end Table

end OpenConditions.Federation

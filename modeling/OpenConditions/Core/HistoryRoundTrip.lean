import OpenConditions.Core.HistoryFields

set_option relaxedAutoImplicit false
set_option autoImplicit false

/-!
# What a history row loses

A reading that is kept as a history row and read back is the reading, unless its payload is one of a
poll without an id.

## Main definitions

* `HistoryObservation` — a reading as it is sealed, with its derived fields.
* `KeepsRawRef` — the raw reference is among what the row, or its poll, keeps.

## Main results

* `recordFromHistory_historyRowOf_iff` — a reading is read back whole exactly when its raw reference
  is kept and it states no tombstone.
-/

namespace OpenConditions.Core

/-! ## Provenance -/

section Provenance

variable {p : Fields} {poll : PollRef} {rawPart : Option ℕ}

/-- **What the schema says of the provenance of a reading** that is no fusion: an attribution, an
upstream that is not empty, a raw reference of its own fields. -/
structure ReadingProvenance (p : Fields) : Prop where
  keys : ∀ key v, p.get key = some v → key ∈ provenanceContent ++ provenanceDerived
  attribution : ∃ attribution, p.get "attribution" = some (.obj attribution)
  upstream : ∀ v, p.get "upstream" = some v → ∃ item items, v = .arr (item :: items)
  rawRef : ∀ v, p.get "rawRef" = some v → ∃ (rawRef : Fields) (hash : String), v = .obj rawRef ∧
    rawRef.get "hash" = some (.str hash) ∧
    ∀ key w, rawRef.get key = some w → key ∈ ["hash", "part", "pointer"]
  sourceId : ∃ sourceId, textAt p "sourceId" = some sourceId ∧ isFusedSourceId sourceId = false

/-- Whether a row keeps a raw reference in full. -/
def keptInFull (p : Fields) (rawPart : Option ℕ) : Bool :=
  match fieldsAt p "rawRef" with
  | none => false
  | some rawRef => rawPart.isNone || (rawRef.get "part").isSome || (rawRef.get "pointer").isSome

/-- The fields that a row keeps of a provenance. -/
theorem get_extraProvenance {key : String} : (extraProvenance p rawPart).get key =
    if "attribution" = key then p.get key
    else if "upstream" = key then some ((presentAt p "upstream").getD (.arr []))
    else if "mergedSources" = key then p.get key
    else if "rawRef" = key then (if keptInFull p rawPart then p.get key else none)
    else if key ∈ varyingProvenance p then p.get key
    else none := by
  have hkept : ((if keptInFull p rawPart then Fields.given "rawRef" (p.get "rawRef") else []) :
      Fields).get key = if "rawRef" = key then (if keptInFull p rawPart then p.get key else none)
        else none := by
    by_cases hk : "rawRef" = key
    · subst hk
      cases keptInFull p rawPart <;> simp
    · cases keptInFull p rawPart <;> simp [hk]
  have hfold : extraProvenance p rawPart = Fields.given "attribution" (p.get "attribution") ++
      [("upstream", (presentAt p "upstream").getD (.arr []))] ++
      Fields.given "mergedSources" (p.get "mergedSources") ++
      (if keptInFull p rawPart then Fields.given "rawRef" (p.get "rawRef") else []) ++
      ((varyingProvenance p).filter fun key => key ≠ "rawRef").flatMap fun key =>
        Fields.given key (p.get key) := rfl
  rw [hfold, Fields.get_append, Fields.get_append, Fields.get_append, Fields.get_append, hkept,
    Fields.get_flatMap_given, Fields.get_given, Fields.get_given, Fields.get_cons, Fields.get_nil]
  by_cases hattribution : "attribution" = key
  · subst hattribution
    simp only [if_true, if_false, String.reduceEq, Option.or_none]
    split_ifs <;> simp
  by_cases hupstream : "upstream" = key
  · subst hupstream
    simp
  by_cases hmerged : "mergedSources" = key
  · subst hmerged
    simp only [if_true, if_false, String.reduceEq, Option.none_or, Option.or_none]
    split_ifs <;> simp
  by_cases hraw : "rawRef" = key
  · subst hraw
    simp
  simp [hattribution, hupstream, hmerged, hraw, Ne.symm hraw]

/-- An optional value that is given by a list that is not empty is that list. -/
theorem itemsOf_upstream (h : ReadingProvenance p) :
    itemsOf (some ((presentAt p "upstream").getD (.arr []))) = p.get "upstream" := by
  unfold presentAt
  cases hget : p.get "upstream" with
  | none => rfl
  | some v =>
    obtain ⟨item, items, rfl⟩ := h.upstream v hget
    rfl

/-- The provenance of a row before its raw reference. -/
def restoredTerms (p : Fields) (rawPart : Option ℕ) (key : String) : Option Json :=
  if "rawRef" = key then (if keptInFull p rawPart then p.get key else none) else p.get key

/-- What the template and a row say of a provenance, before an empty upstream is left out. -/
def mergedProvenance (p : Fields) (rawPart : Option ℕ) : Fields :=
  (((Fields.without (p.without (varyingProvenance p))
    ["attribution", "upstream", "mergedSources"]).spread (extraProvenance p rawPart)).spread
      (Fields.given "attribution" (p.get "attribution") ++
        Fields.given "upstream" (p.get "upstream") ++
        Fields.given "mergedSources" (p.get "mergedSources"))).without ["creditReceiptId"]

/-- It says what the provenance says, and that the upstream is empty when there is none. -/
theorem get_mergedProvenance (h : ReadingProvenance p) (k : String) :
    (mergedProvenance p rawPart).get k =
      if k = "upstream" ∧ p.get "upstream" = none then some (.arr [])
      else restoredTerms p rawPart k := by
  obtain ⟨attribution, hattribution⟩ := h.attribution
  have hreceipt : p.get "creditReceiptId" = none := by
    cases hget : p.get "creditReceiptId" with
    | none => rfl
    | some v => exact absurd (h.keys _ v hget) (by decide)
  have hraw : "rawRef" ∈ varyingProvenance p := by
    unfold varyingProvenance
    split_ifs <;> decide
  rw [mergedProvenance, Fields.get_without, Fields.get_spread, Fields.get_spread,
    Fields.get_without, Fields.get_without, get_extraProvenance, Fields.get_append,
    Fields.get_append, Fields.get_given, Fields.get_given, Fields.get_given]
  unfold restoredTerms
  by_cases h1 : "attribution" = k
  · subst h1
    simp [hattribution]
  by_cases h2 : "upstream" = k
  · subst h2
    cases hup : p.get "upstream" <;> simp [presentAt, hup]
  by_cases h3 : "mergedSources" = k
  · subst h3
    cases p.get "mergedSources" <;> simp
  by_cases h4 : "rawRef" = k
  · subst h4
    simp [hraw]
  by_cases h5 : "creditReceiptId" = k
  · subst h5
    simp [hreceipt]
  by_cases h6 : k ∈ varyingProvenance p <;>
    simp [h1, h2, h3, h4, h6, Ne.symm h1, Ne.symm h2, Ne.symm h3, Ne.symm h5]

/-- Without an empty upstream it says what the provenance says. -/
theorem get_withoutEmptyUpstream (h : ReadingProvenance p) (k : String) :
    (withoutEmptyUpstream (mergedProvenance p rawPart)).get k = restoredTerms p rawPart k := by
  have hat := @get_mergedProvenance p rawPart h "upstream"
  unfold withoutEmptyUpstream
  cases hup : p.get "upstream" with
  | none =>
    rw [if_pos ⟨rfl, hup⟩] at hat
    rw [hat, Fields.get_without]
    by_cases hk : k = "upstream"
    · subst hk
      simp [restoredTerms, hup]
    · rw [if_neg (by simpa using hk), get_mergedProvenance h, if_neg fun hand => hk hand.1]
  | some v =>
    obtain ⟨item, items, rfl⟩ := h.upstream v hup
    have hne : ¬(k = "upstream" ∧ p.get "upstream" = none) := by simp [hup]
    rw [if_neg (by simp [hup]), restoredTerms, if_neg (by decide), hup] at hat
    simp only [hat]
    rw [get_mergedProvenance h, if_neg hne]

/-- The provenance of a row is what was merged, with the reference to the payload that it names. -/
theorem historyProvenance_eq (h : ReadingProvenance p) {named : Option ℕ} {hashes : List String} :
    historyProvenance (p.without (varyingProvenance p)) (extraProvenance p rawPart) none named
      hashes = match named with
        | none => withoutEmptyUpstream (mergedProvenance p rawPart)
        | some part =>
          if ((withoutEmptyUpstream (mergedProvenance p rawPart)).get "rawRef").isSome then
            withoutEmptyUpstream (mergedProvenance p rawPart)
          else (withoutEmptyUpstream (mergedProvenance p rawPart)).put "rawRef"
            (.obj (Fields.given "hash" (hashes[part]?.map .str))) := by
  obtain ⟨attribution, hattribution⟩ := h.attribution
  have hown : (extraProvenance p rawPart).get "attribution" = some (.obj attribution) := by
    rw [get_extraProvenance, if_pos rfl, hattribution]
  have hterm : (presentAt (extraProvenance p rawPart) "attribution").getD unknownAttribution =
      .obj attribution := by
    rw [presentAt, hown]
    rfl
  have hupstream : itemsOf ((extraProvenance p rawPart).get "upstream") = p.get "upstream" := by
    rw [get_extraProvenance, if_neg (by decide), if_pos rfl, itemsOf_upstream h]
  have hmerged : (extraProvenance p rawPart).get "mergedSources" = p.get "mergedSources" := by
    rw [get_extraProvenance, if_neg (by decide), if_neg (by decide), if_pos rfl]
  unfold historyProvenance mergedProvenance
  simp only [hown, Option.isSome_some, if_true, Option.none_or, Option.getD_some, hterm, hupstream,
    hmerged, hattribution]
  rfl

/-- **A provenance is read back** from what the template and the row keep, except for the reference
to its payload. -/
theorem get_historyProvenance (h : ReadingProvenance p) {named : Option ℕ} {hashes : List String}
    (key : String) :
    (historyProvenance (p.without (varyingProvenance p)) (extraProvenance p rawPart) none named
      hashes).get key =
      if "rawRef" = key then
        (if keptInFull p rawPart then p.get key
        else named.map fun part => .obj (Fields.given "hash" (hashes[part]?.map .str)))
      else p.get key := by
  have hkept : keptInFull p rawPart = true → (p.get "rawRef").isSome = true := by
    unfold keptInFull fieldsAt
    cases p.get "rawRef" <;> simp
  rw [historyProvenance_eq h]
  cases named with
  | none =>
    simp only [get_withoutEmptyUpstream h, restoredTerms, Option.map_none]
  | some part =>
    simp only [get_withoutEmptyUpstream h, restoredTerms, if_true, Option.map_some]
    cases hfull : keptInFull p rawPart with
    | true =>
      rw [if_pos rfl, if_pos (hkept hfull), get_withoutEmptyUpstream h, restoredTerms, hfull]
      rfl
    | false =>
      rw [if_neg (by simp), Fields.get_put]
      by_cases hraw : "rawRef" = key
      · rw [if_pos hraw, if_pos hraw, if_neg (by simp)]
      · rw [if_neg hraw, if_neg hraw, get_withoutEmptyUpstream h, restoredTerms, if_neg hraw]

/-- **A raw reference is kept**: in full when it names a part of its payload or the payload is none of
the poll's, and by its position among them when the poll has an id. -/
def KeepsRawRef (p : Fields) (poll : PollRef) : Prop :=
  ∀ rawRef, fieldsAt p "rawRef" = some rawRef →
    (rawRef.get "part").isSome = true ∨ (rawRef.get "pointer").isSome = true ∨
      poll.fetchId.isSome = true ∨
        ∀ hash, textAt rawRef "hash" = some hash → hash ∉ poll.payloadHashes.getD []

/-- The payload hashes of the poll that a row names. -/
def hashesNamed (row : HistoryRow) (poll : PollRef) : List String :=
  if row.fetchId.isSome then poll.payloadHashes.getD [] else []

/-- The position of a payload is that of its hash. -/
theorem rawPartOf_eq {rawRef : Fields} {hash : String} (hraw : p.get "rawRef" = some (.obj rawRef))
    (hhash : rawRef.get "hash" = some (.str hash)) :
    rawPartOf p poll = poll.payloadHashes.bind fun hashes => hashes.idxOf? hash := by
  have hfields : fieldsAt p "rawRef" = some rawRef := by rw [fieldsAt, hraw]; rfl
  have htext : textAt rawRef "hash" = some hash := by rw [textAt, hhash]; rfl
  unfold rawPartOf
  rw [hfields]
  change ((textAt rawRef "hash").bind fun hash => poll.payloadHashes.bind fun hashes =>
    hashes.idxOf? hash) = _
  rw [htext, Option.bind_some]

/-- A raw reference of a hash only is what the hash says. -/
theorem rawRef_value {rawRef : Fields} {hash : String} (hhash : rawRef.get "hash" = some (.str hash))
    (hkeys : ∀ key w, rawRef.get key = some w → key ∈ ["hash", "part", "pointer"])
    (hpart : (rawRef.get "part").isSome = false) (hpointer : (rawRef.get "pointer").isSome = false) :
    (Json.obj [("hash", .str hash)]).value = (Json.obj rawRef).value := by
  refine Fields.value_ext fun key => ?_
  rw [Fields.get_cons, Fields.get_nil]
  split_ifs with hkey
  · rw [← hkey, hhash]
  · cases hget : rawRef.get key with
    | none => rfl
    | some w =>
      have hmem := hkeys key w hget
      simp only [List.mem_cons, List.not_mem_nil, or_false, Ne.symm hkey, false_or] at hmem
      rcases hmem with rfl | rfl
      · rw [hget] at hpart
        cases hpart
      · rw [hget] at hpointer
        cases hpointer

/-- **A raw reference is read back exactly when it is kept.** -/
theorem rawRef_read_iff (h : ReadingProvenance p) (poll : PollRef) {hashes : List String}
    (hhashes : poll.fetchId.isSome = true → (rawPartOf p poll).isSome = true →
      hashes = poll.payloadHashes.getD []) :
    (if keptInFull p (rawPartOf p poll) then p.get "rawRef"
      else (if poll.fetchId.isSome then rawPartOf p poll else none).map fun part =>
        Json.obj (Fields.given "hash" (hashes[part]?.map .str))).map Json.value =
      (p.get "rawRef").map Json.value ↔ KeepsRawRef p poll := by
  cases hraw : p.get "rawRef" with
  | none =>
    have hfields : fieldsAt p "rawRef" = none := by rw [fieldsAt, hraw]; rfl
    have hpart : rawPartOf p poll = none := by
      unfold rawPartOf
      rw [hfields]
      rfl
    simp [keptInFull, KeepsRawRef, hfields, hpart]
  | some v =>
    obtain ⟨rawRef, hash, rfl, hhash, hkeys⟩ := h.rawRef v hraw
    have hfields : fieldsAt p "rawRef" = some rawRef := by rw [fieldsAt, hraw]; rfl
    have htext : textAt rawRef "hash" = some hash := by rw [textAt, hhash]; rfl
    have hkeeps : KeepsRawRef p poll ↔ (rawRef.get "part").isSome = true ∨
        (rawRef.get "pointer").isSome = true ∨ poll.fetchId.isSome = true ∨
          hash ∉ poll.payloadHashes.getD [] := by
      simp [KeepsRawRef, hfields, htext]
    rw [hkeeps]
    unfold keptInFull
    simp only [hfields]
    cases hpart : rawPartOf p poll with
    | none =>
      -- The payload is none of the poll's: the reference is kept in full.
      have hnot : hash ∉ poll.payloadHashes.getD [] := by
        rw [rawPartOf_eq hraw hhash] at hpart
        cases hp : poll.payloadHashes with
        | none => exact List.not_mem_nil
        | some hs =>
          rw [hp, Option.bind_some, List.idxOf?_eq_none_iff] at hpart
          exact hpart
      simp [hnot]
    | some i =>
      obtain ⟨hs, hpayload, hidx⟩ : ∃ hs, poll.payloadHashes = some hs ∧ hs.idxOf? hash = some i :=
        Option.bind_eq_some_iff.mp (rawPartOf_eq hraw hhash ▸ hpart)
      have hat : hs[i]? = some hash := by
        obtain ⟨hlt, heq, -⟩ := List.idxOf?_eq_some_iff.mp hidx
        rw [List.getElem?_eq_getElem hlt, heq]
      have hmem : hash ∈ poll.payloadHashes.getD [] := by
        rw [hpayload]
        exact List.mem_of_getElem? hat
      by_cases hfull : (rawRef.get "part").isSome = true ∨ (rawRef.get "pointer").isSome = true
      · rcases hfull with hfull | hfull <;> simp [hfull]
      · obtain ⟨hnoPart, hnoPointer⟩ := not_or.mp hfull
        rw [Bool.not_eq_true] at hnoPart hnoPointer
        simp only [hnoPart, hnoPointer, Option.isNone_some, Bool.or_self, Bool.false_eq_true,
          if_false, false_or, hmem, not_true_eq_false, or_false]
        cases hfetch : poll.fetchId.isSome with
        | false => simp
        | true =>
          have heq : hashes = hs := by
            rw [hhashes hfetch (by rw [hpart]; rfl), hpayload, Option.getD_some]
          simp only [if_true, Option.map_some, heq, hat, iff_true]
          exact congrArg some (rawRef_value hhash hkeys hnoPart hnoPointer)

end Provenance

/-! ## Readings -/

section Readings

variable {ops : RecordOps} {spec : ResultSpec} {r p : Fields} {poll : PollRef}

/-- **A reading as it is sealed**: it has the fields of the schema, its identities and its hash are
derived, it is no fusion and at its first revision, and it carries nothing of read time and no
evidence. -/
structure HistoryObservation (ops : RecordOps) (spec : ResultSpec) (r p : Fields) : Prop where
  keys : ∀ key v, r.get key = some v → key ∈ observationKeys
  id : ∃ (id : String) (parts : RecordIdParts), r.get "id" = some (.str id) ∧
    parseRecordId id = some parts ∧ observationId ops parts.ns r = .ok id ∧
    r.get "canonicalId" = some (.str (ops.canonicalIdOf parts.ns parts.localId))
  contentHash : ∃ hash, contentHash ops r = .ok hash ∧ r.get "contentHash" = some (.str hash)
  revision : r.get "revision" = some (.num 1)
  property : ∃ code, r.get "property" = some (.str code) ∧ ops.property code = some spec
  result : ∃ result, r.get "result" = some (.obj result) ∧ ValidResult spec result
  phenomenonTime : ∃ time : Fields, r.get "phenomenonTime" = some (.obj time) ∧
    ((∃ s, time.get "instant" = some (.str s) ∧ ∀ key v, time.get key = some v → key = "instant") ∨
      ∃ s e, time.get "start" = some (.str s) ∧ time.get "end" = some (.str e) ∧
        ∀ key v, time.get key = some v → key = "start" ∨ key = "end")
  provenance : r.get "provenance" = some (.obj p)
  reading : ReadingProvenance p
  freshness : ∃ freshness, r.get "freshness" = some (.obj freshness)
  forecast : ∀ v, r.get "forecast" = some v → ∃ forecast, v = .obj forecast
  present : ∀ key ∈ ["resultTime", "validUntil", "quality", "baseline"], r.get key ≠ some .null
  sinceAt : r.get "sinceAt" = none
  evidence : r.get "evidence" = none

/-- A reading that is no fusion has no lineage. -/
theorem fusionRecordIds_reading (hp : r.get "provenance" = some (.obj p))
    (h : ReadingProvenance p) : fusionRecordIds ops.canonicalIdOf r = none := by
  cases hids : fusionRecordIds ops.canonicalIdOf r with
  | none => rfl
  | some ids =>
    obtain ⟨sourceId, -, -, -, -, hsource, -, -, -, -, -, hfused, -⟩ := fusionRecordIds_eq_some hp hids
    obtain ⟨own, hown, hnot⟩ := h.sourceId
    rw [hown] at hsource
    obtain rfl := Option.some.inj hsource
    rw [hnot] at hfused
    cases hfused

/-- The provenance of a reading's template. -/
theorem provenance_template (h : HistoryObservation ops spec r p) :
    fieldsAt (templateOf ops.canonicalIdOf r) "provenance" =
      some (p.without (varyingProvenance p)) := by
  have hp : (fieldsAt r "provenance").getD [] = p := by rw [fieldsAt, h.provenance]; rfl
  rw [fieldsAt, get_templateOf (by decide), if_neg (by decide), if_pos rfl, hp]
  unfold sharedProvenance
  simp only [fusionRecordIds_reading h.provenance h.reading]
  rfl

/-- What a row keeps besides its columns. -/
theorem get_extraOf (h : HistoryObservation ops spec r p) {rawPart : Option ℕ} :
    (extraOf r rawPart).get "provenance" = some (.obj (extraProvenance p rawPart)) ∧
    (∀ key ∈ ["forecast", "externalIds", "relations", "extras"],
      (extraOf r rawPart).get key = r.get key) ∧
    (extraOf r rawPart).get "freshness" =
      (nonEmpty (((fieldsAt r "freshness").getD []).without ["fetchedAt"])).map .obj := by
  have hp : (fieldsAt r "provenance").getD [] = p := by rw [fieldsAt, h.provenance]; rfl
  have hne : nonEmpty (extraProvenance p rawPart) = some (extraProvenance p rawPart) := by
    rw [nonEmpty, if_neg]
    intro hnil
    have hget := @get_extraProvenance p rawPart "upstream"
    rw [hnil] at hget
    simp at hget
  have hforecast : (fieldsAt r "forecast").map Json.obj = r.get "forecast" := by
    unfold fieldsAt
    cases hget : r.get "forecast" with
    | none => rfl
    | some v =>
      obtain ⟨forecast, rfl⟩ := h.forecast v hget
      rfl
  unfold extraOf
  simp only [hp, hne, hforecast, Fields.get_append, Fields.get_given, Fields.get_flatMap_given]
  refine ⟨by simp, fun key hkey => ?_, by simp⟩
  simp only [List.mem_cons, List.not_mem_nil, or_false] at hkey
  rcases hkey with rfl | rfl | rfl | rfl <;> simp

/-- The time of a reading is read back from the columns of its start and its end. -/
theorem phenomenonTime_value {time : Fields}
    (h : (∃ s, time.get "instant" = some (.str s) ∧ ∀ key v, time.get key = some v → key = "instant") ∨
      ∃ s e, time.get "start" = some (.str s) ∧ time.get "end" = some (.str e) ∧
        ∀ key v, time.get key = some v → key = "start" ∨ key = "end") :
    (Json.obj (phenomenonTimeOf ((presentAt time "instant").or (time.get "start"))
      (presentAt time "end"))).value = (Json.obj time).value := by
  have hnone : ∀ {key : String}, (∀ v, time.get key = some v → False) → time.get key = none := by
    intro key hkey
    cases hget : time.get key with
    | none => rfl
    | some v => exact (hkey v hget).elim
  rcases h with ⟨s, hinstant, hkeys⟩ | ⟨s, e, hstart, hend, hkeys⟩
  · have hno : time.get "end" = none := hnone fun v hv => absurd (hkeys _ v hv) (by decide)
    simp only [phenomenonTimeOf, presentAt, hno, hinstant]
    refine Fields.value_ext fun key => ?_
    rw [Fields.get_given]
    split_ifs with hkey
    · rw [← hkey, hinstant]
      rfl
    · rw [hnone fun v hv => hkey (hkeys _ v hv).symm]
  · have hno : time.get "instant" = none := hnone fun v hv => absurd (hkeys _ v hv) (by decide)
    simp only [phenomenonTimeOf, presentAt, hno, hstart, hend]
    refine Fields.value_ext fun key => ?_
    rw [Fields.get_append, Fields.get_given, Fields.get_cons, Fields.get_nil]
    by_cases hs : "start" = key
    · subst hs
      simp [hstart]
    · by_cases he : "end" = key
      · subst he
        simp [hend]
      · rw [if_neg hs, if_neg he, Option.none_or,
          hnone fun v hv => (hkeys _ v hv).elim (hs ·.symm) (he ·.symm)]

/-- The freshness of a reading is read back. -/
theorem freshness_value {freshness : Fields} :
    (Json.obj ((Fields.given "fetchedAt" (freshness.get "fetchedAt")).spread
      (freshness.without ["fetchedAt"]))).value = (Json.obj freshness).value := by
  refine Fields.value_ext fun key => ?_
  rw [Fields.get_spread, Fields.get_without, Fields.get_given]
  by_cases hkey : "fetchedAt" = key
  · subst hkey
    simp
  · rw [if_neg (by simpa using Ne.symm hkey), if_neg hkey, Option.or_none]

/-- The provenance that is read back. -/
def provenanceRead (p : Fields) (poll : PollRef) (hashes : List String) : Fields :=
  historyProvenance (p.without (varyingProvenance p)) (extraProvenance p (rawPartOf p poll)) none
    (if poll.fetchId.isSome then rawPartOf p poll else none) hashes

/-- The fields of a reading that are read back, before its identities and its hash. -/
def fieldsRead (ops : RecordOps) (r : Fields) (spec : ResultSpec) (poll : PollRef)
    (result provenance : Fields) : Fields :=
  (((templateOf ops.canonicalIdOf r).without ["namespace"]).without
    ["temporality", "aggregation"]).spread
      (historyFields (historyRowOf r spec poll) result provenance)

/-- **Each field of a reading is read back**, but for its identities, its hash, its provenance and its
tombstone. -/
theorem sameAt_fieldsRead (h : HistoryObservation ops spec r p) {result own provenance : Fields}
    (hresult : r.get "result" = some (.obj result)) (hown : own.value = result.value)
    {key : String}
    (hkey : key ∉ ["id", "canonicalId", "contentHash", "provenance", "tombstone"]) :
    SameAt (fieldsRead ops r spec poll own provenance) r key := by
  obtain ⟨time, htime, hcases⟩ := h.phenomenonTime
  obtain ⟨freshness, hfreshness⟩ := h.freshness
  have hp : (fieldsAt r "provenance").getD [] = p := by rw [fieldsAt, h.provenance]; rfl
  have htimeFields : (fieldsAt r "phenomenonTime").getD [] = time := by rw [fieldsAt, htime]; rfl
  have hfreshFields : (fieldsAt r "freshness").getD [] = freshness := by
    rw [fieldsAt, hfreshness]
    rfl
  have hpresent : ∀ key ∈ ["resultTime", "validUntil", "quality", "baseline"],
      presentAt r key = r.get key := by
    intro key hin
    unfold presentAt
    split
    · exact absurd ‹_› (h.present key hin)
    · rfl
  obtain ⟨-, hextra, hextraFresh⟩ := @get_extraOf ops spec r p h (rawPartOf p poll)
  have hfreshRead : (fieldsAt (extraOf r (rawPartOf p poll)) "freshness").getD [] =
      Fields.without freshness ["fetchedAt"] := by
    rw [fieldsAt, hextraFresh, hfreshFields]
    unfold nonEmpty
    split_ifs with hempty
    · exact hempty.symm
    · rfl
  have hobj : (Json.obj own).value = (Json.obj result).value := hown
  unfold SameAt fieldsRead historyFields historyRowOf
  simp only [hp, htimeFields, hfreshFields, getD_nonEmpty, hfreshRead, Fields.get_spread,
    Fields.get_append, Fields.get_given, Fields.get_flatMap_given, Fields.get_cons, Fields.get_nil,
    Fields.get_without, hpresent "resultTime" (by simp), hpresent "validUntil" (by simp),
    hpresent "quality" (by simp), hpresent "baseline" (by simp)]
  by_cases hin : key ∈ observationKeys
  · simp only [observationKeys, List.mem_cons, List.not_mem_nil, or_false] at hin
    rcases hin with rfl | rfl | rfl | rfl | rfl | rfl | rfl | rfl | rfl | rfl | rfl | rfl | rfl |
      rfl | rfl | rfl | rfl | rfl | rfl | rfl | rfl | rfl | rfl | rfl | rfl | rfl | rfl | rfl | rfl
    all_goals simp [get_templateOf, templateKeys, hextra, h.revision, h.sinceAt, h.evidence, hresult,
      hobj, htime, phenomenonTime_value hcases, hfreshness, freshness_value] at hkey ⊢
  · -- A field that no reading has.
    have hnone : r.get key = none := by
      cases hget : r.get key with
      | none => rfl
      | some v => exact absurd (h.keys _ v hget) hin
    have hne : ∀ k ∈ observationKeys, k ≠ key := fun k hk heq => hin (heq ▸ hk)
    have hextras : key ∉ ["forecast", "externalIds", "relations", "extras"] := fun hmem =>
      hin ((by decide : ∀ k ∈ ["forecast", "externalIds", "relations", "extras"],
        k ∈ observationKeys) key hmem)
    have htemplate : key ∉ templateKeys := fun hmem =>
      hin ((by decide : ∀ k ∈ templateKeys, k ∈ observationKeys) key hmem)
    by_cases hns : key = "namespace"
    · subst hns
      simp [hnone]
    · have hprovenance : "provenance" ≠ key := hne _ (by decide)
      simp only [get_templateOf hns, hnone, if_neg htemplate, if_neg hextras, if_neg hprovenance,
        ite_self, Option.or_none, if_neg (hne "temporality" (by decide)),
        if_neg (hne "phenomenonTime" (by decide)), if_neg (hne "resultTime" (by decide)),
        if_neg (hne "validUntil" (by decide)), if_neg (hne "aggregation" (by decide)),
        if_neg (hne "result" (by decide)), if_neg (hne "quality" (by decide)),
        if_neg (hne "baseline" (by decide)), if_neg (hne "freshness" (by decide)),
        if_neg (hne "revision" (by decide)), if_neg (hne "recordedAt" (by decide))]

/-- The identities and the hash that are read back. -/
theorem fieldsRead_derived (h : HistoryObservation ops spec r p) {result own provenance : Fields}
    (hresult : r.get "result" = some (.obj result)) (hown : own.value = result.value) :
    ∃ id parts hash, r.get "id" = some (.str id) ∧ parseRecordId id = some parts ∧
      r.get "canonicalId" = some (.str (ops.canonicalIdOf parts.ns parts.localId)) ∧
      r.get "contentHash" = some (.str hash) ∧
      shownAt (templateOf ops.canonicalIdOf r) "namespace" = parts.ns ∧
      observationId ops parts.ns (fieldsRead ops r spec poll own provenance) = .ok id ∧
      contentHash ops r = .ok hash := by
  obtain ⟨id, parts, hid, hparts, hderived, hcanonical⟩ := h.id
  obtain ⟨hash, hhash, hget⟩ := h.contentHash
  refine ⟨id, parts, hash, hid, hparts, hcanonical, hget, ?_, ?_, hhash⟩
  · rw [shownAt, textAt, get_templateOf_namespace hid hparts]
    rfl
  · have hlocal : observationLocalId ops (fieldsRead ops r spec poll own provenance) =
        observationLocalId ops r :=
      observationLocalId_congr fun key hkey => sameAt_fieldsRead h hresult hown fun hmem => by
        simp only [List.mem_cons, List.not_mem_nil, or_false] at hkey
        rcases hkey with rfl | rfl | rfl | rfl | rfl | rfl <;> exact absurd hmem (by decide)
    rw [observationId, hlocal]
    exact hderived

/-- The provenance that is read back has classified fields, and says of its content what it did. -/
theorem provenanceRead_content (h : HistoryObservation ops spec r p) {hashes : List String} :
    (∀ key v, (provenanceRead p poll hashes).get key = some v →
      key ∈ provenanceContent ++ provenanceDerived) ∧
    ∀ key ∈ provenanceContent, SameAt (provenanceRead p poll hashes) p key := by
  constructor
  · intro key v hv
    rw [provenanceRead, get_historyProvenance h.reading] at hv
    by_cases hraw : "rawRef" = key
    · rw [← hraw]
      decide
    · rw [if_neg hraw] at hv
      exact h.reading.keys key v hv
  · intro key hkey
    have hraw : "rawRef" ≠ key := by
      rintro rfl
      exact absurd hkey (by decide)
    rw [SameAt, provenanceRead, get_historyProvenance h.reading, if_neg hraw]

/-- What is read back of a template and its row is completed with the identities and the hash. -/
theorem recordFromHistory_eq (h : HistoryObservation ops spec r p) {hashes : List String}
    {result own : Fields} (hresult : r.get "result" = some (.obj result))
    (hdecode : decodeResult (encodeResult result spec) spec = .ok own)
    {id hash : String} {parts : RecordIdParts}
    (hns : shownAt (templateOf ops.canonicalIdOf r) "namespace" = parts.ns)
    (hid : observationId ops parts.ns
      (fieldsRead ops r spec poll own (provenanceRead p poll hashes)) = .ok id)
    (hparts : parseRecordId id = some parts)
    (hhash : contentHash ops (((fieldsRead ops r spec poll own (provenanceRead p poll hashes)).put
      "id" (.str id)).put "canonicalId" (.str (ops.canonicalIdOf parts.ns parts.localId))) =
        .ok hash) :
    recordFromHistory ops (templateOf ops.canonicalIdOf r) (historyRowOf r spec poll) hashes =
      .ok ((((fieldsRead ops r spec poll own (provenanceRead p poll hashes)).put "id"
        (.str id)).put "canonicalId" (.str (ops.canonicalIdOf parts.ns parts.localId))).put
          "contentHash" (.str hash)) := by
  obtain ⟨code, hcode, hspec⟩ := h.property
  have hp : (fieldsAt r "provenance").getD [] = p := by rw [fieldsAt, h.provenance]; rfl
  have hrow : (historyRowOf r spec poll).extra.getD [] = extraOf r (rawPartOf p poll) := by
    unfold historyRowOf
    simp only [hp, getD_nonEmpty]
  have hrawPart : (historyRowOf r spec poll).rawPart =
      if poll.fetchId.isSome then rawPartOf p poll else none := by
    unfold historyRowOf
    simp only [hp]
  have hproperty : shownAt ((templateOf ops.canonicalIdOf r).without ["namespace"]) "property" =
      code := by
    rw [shownAt, textAt, Fields.get_without, if_neg (by decide), get_templateOf (by decide),
      if_pos (by decide), hcode]
    rfl
  have htemplate : (fieldsAt ((templateOf ops.canonicalIdOf r).without ["namespace"])
      "provenance").getD [] = p.without (varyingProvenance p) := by
    rw [fieldsAt, Fields.get_without, if_neg (by decide)]
    exact congrArg (Option.getD · []) (provenance_template h)
  have hkept : (fieldsAt (extraOf r (rawPartOf p poll)) "provenance").getD [] =
      extraProvenance p (rawPartOf p poll) := by
    rw [fieldsAt, (get_extraOf h).1]
    rfl
  have hcolumns : decodeResult (historyRowOf r spec poll).columns spec = .ok own := by
    have hresultFields : (fieldsAt r "result").getD [] = result := by rw [fieldsAt, hresult]; rfl
    unfold historyRowOf
    simp only [hresultFields]
    exact hdecode
  have hcaptured : (historyRowOf r spec poll).capturedProvenance = none := rfl
  unfold fieldsRead provenanceRead at *
  unfold recordFromHistory
  simp only [hns, hproperty, resultOf, hspec, hrow, hrawPart, htemplate, hkept, hcolumns, hcaptured,
    hid, localIdOf, hparts, hhash, bind, Except.bind]

/-- **A reading is read back** from its template and its row: the record that is rebuilt says what the
reading says of every field, but for its provenance and its tombstone. -/
theorem recordFromHistory_eq_ok (h : HistoryObservation ops spec r p) {hashes : List String} :
    ∃ out, recordFromHistory ops (templateOf ops.canonicalIdOf r) (historyRowOf r spec poll) hashes =
        .ok out ∧
      out.get "provenance" = some (.obj (provenanceRead p poll hashes)) ∧
      out.get "tombstone" = none ∧
      ∀ key, key ∉ ["provenance", "tombstone"] → SameAt out r key := by
  obtain ⟨result, hresult, hvalid⟩ := h.result
  obtain ⟨own, hdecode, hown⟩ := decodeResult_encodeResult hvalid
  set provenance := provenanceRead p poll hashes with hprovenance
  set fields := fieldsRead ops r spec poll own provenance with hfieldsRead
  obtain ⟨id, parts, hash, hid, hparts, hcanonical, hget, hns, hidRead, hhash⟩ :=
    @fieldsRead_derived ops spec r p poll h result own provenance hresult hown
  have hfields : ∀ key, key ∉ ["id", "canonicalId", "contentHash", "provenance", "tombstone"] →
      SameAt fields r key := fun key hkey => sameAt_fieldsRead h hresult hown hkey
  have hread : ∀ key ∈ ["id", "canonicalId", "contentHash", "tombstone"], fields.get key = none := by
    intro key hkey
    simp only [List.mem_cons, List.not_mem_nil, or_false] at hkey
    rw [hfieldsRead, fieldsRead, historyFields]
    rcases hkey with rfl | rfl | rfl | rfl <;>
      simp [Fields.get_append, get_templateOf, templateKeys]
  have hreadProvenance : fields.get "provenance" = some (.obj provenance) := by
    rw [hfieldsRead, fieldsRead, historyFields]
    simp [Fields.get_append]
  set identified := (fields.put "id" (.str id)).put "canonicalId"
    (.str (ops.canonicalIdOf parts.ns parts.localId)) with hidentified
  have hsame : ∀ key, key ∉ ["contentHash", "provenance", "tombstone"] →
      SameAt identified r key := by
    intro key hkey
    simp only [List.mem_cons, List.not_mem_nil, or_false, not_or] at hkey
    rw [SameAt, hidentified, Fields.get_put, Fields.get_put]
    by_cases hc : "canonicalId" = key
    · rw [if_pos hc, ← hc, hcanonical]
    · by_cases hi : "id" = key
      · rw [if_neg hc, if_pos hi, ← hi, hid]
      · rw [if_neg hc, if_neg hi]
        exact hfields key (by simp [hkey, Ne.symm hc, Ne.symm hi])
  have hidProvenance : identified.get "provenance" = some (.obj provenance) := by
    rw [hidentified, Fields.get_put, Fields.get_put, if_neg (by decide), if_neg (by decide),
      hreadProvenance]
  have hkeys : ∀ key v, identified.get key = some v → key ∈ observationKeys := by
    intro key v hv
    by_cases hin : key ∈ ["contentHash", "provenance", "tombstone"]
    · exact (by decide : ∀ k ∈ ["contentHash", "provenance", "tombstone"], k ∈ observationKeys)
        key hin
    · have hat := hsame key hin
      rw [SameAt, hv, Option.map_some, eq_comm] at hat
      obtain ⟨w, hw, -⟩ := Option.map_eq_some_iff.mp hat
      exact h.keys key w hw
  obtain ⟨hclassified, hcontent⟩ := @provenanceRead_content ops spec r p poll h hashes
  have hhashRead : contentHash ops identified = .ok hash := by
    rw [contentHash_congr hkeys h.keys hidProvenance h.provenance hclassified h.reading.keys
      (fun key hkey hne => hsame key fun hmem => ?_) hcontent]
    · exact hhash
    · simp only [List.mem_cons, List.not_mem_nil, or_false, hne, false_or] at hmem
      rcases hmem with rfl | rfl <;> exact absurd hkey (by decide)
  refine ⟨identified.put "contentHash" (.str hash), ?_, ?_, ?_, ?_⟩
  · exact recordFromHistory_eq h hresult hdecode hns hidRead hparts hhashRead
  · rw [Fields.get_put, if_neg (by decide), hidProvenance]
  · rw [Fields.get_put, if_neg (by decide), hidentified, Fields.get_put, Fields.get_put,
      if_neg (by decide), if_neg (by decide), hread _ (by decide)]
  · intro key hkey
    rw [SameAt, Fields.get_put]
    by_cases hc : "contentHash" = key
    · rw [if_pos hc, ← hc, hget]
    · rw [if_neg hc]
      simp only [List.mem_cons, List.not_mem_nil, or_false, not_or] at hkey
      exact hsame key (by simp [hkey, Ne.symm hc])

/-- A row that names its poll is read with the poll's payload hashes. -/
theorem hashesNamed_eq (h : HistoryObservation ops spec r p) (hfetch : poll.fetchId.isSome = true)
    (hpart : (rawPartOf p poll).isSome = true) :
    hashesNamed (historyRowOf r spec poll) poll = poll.payloadHashes.getD [] := by
  have hp : (fieldsAt r "provenance").getD [] = p := by rw [fieldsAt, h.provenance]; rfl
  have hnamed : (historyRowOf r spec poll).fetchId = poll.fetchId := by
    unfold historyRowOf
    simp only [hp, hpart, if_true]
  rw [hashesNamed, hnamed, if_pos hfetch]

/-- A reading is read back whole when its raw reference is kept and it states no tombstone. -/
theorem roundTrip_of_kept (h : HistoryObservation ops spec r p) (htombstone : r.get "tombstone" = none)
    (hkeeps : KeepsRawRef p poll) :
    (recordFromHistory ops (templateOf ops.canonicalIdOf r) (historyRowOf r spec poll)
      (hashesNamed (historyRowOf r spec poll) poll)).map Fields.value = .ok r.value := by
  obtain ⟨out, hout, hprovenance, hnone, hsame⟩ :=
    @recordFromHistory_eq_ok ops spec r p poll h (hashesNamed (historyRowOf r spec poll) poll)
  rw [hout]
  refine congrArg Except.ok (Fields.value_ext fun key => ?_)
  by_cases hkey : key ∈ ["provenance", "tombstone"]
  · simp only [List.mem_cons, List.not_mem_nil, or_false] at hkey
    rcases hkey with rfl | rfl
    · rw [hprovenance, h.provenance]
      refine congrArg some (Fields.value_ext fun k => ?_)
      rw [provenanceRead, get_historyProvenance h.reading]
      by_cases hraw : "rawRef" = k
      · rw [if_pos hraw, ← hraw]
        exact (rawRef_read_iff h.reading poll (hashesNamed_eq h)).mpr hkeeps
      · rw [if_neg hraw]
    · rw [hnone, htombstone]
  · exact hsame key hkey

/-- A reading that is read back whole states no tombstone, and its raw reference was kept. -/
theorem kept_of_roundTrip (h : HistoryObservation ops spec r p)
    (hround : (recordFromHistory ops (templateOf ops.canonicalIdOf r) (historyRowOf r spec poll)
      (hashesNamed (historyRowOf r spec poll) poll)).map Fields.value = .ok r.value) :
    r.get "tombstone" = none ∧ KeepsRawRef p poll := by
  obtain ⟨out, hout, hprovenance, hnone, -⟩ :=
    @recordFromHistory_eq_ok ops spec r p poll h (hashesNamed (historyRowOf r spec poll) poll)
  rw [hout] at hround
  have hvalue : out.value = r.value := Except.ok.inj hround
  constructor
  · have hat := Fields.get_of_value hvalue "tombstone"
    rw [hnone, Option.map_none, eq_comm, Option.map_eq_none_iff] at hat
    exact hat
  · have hat := Fields.get_of_value hvalue "provenance"
    rw [hprovenance, h.provenance, Option.map_some, Option.map_some, Option.some.injEq] at hat
    have hraw := sameAt_of_value (show Fields.value _ = Fields.value _ from hat) "rawRef"
    rw [SameAt, provenanceRead, get_historyProvenance h.reading, if_pos rfl] at hraw
    exact (rawRef_read_iff h.reading poll (hashesNamed_eq h)).mp hraw

/-- **A reading is read back whole exactly when its raw reference is kept and it states no
tombstone.** -/
theorem recordFromHistory_historyRowOf_iff (h : HistoryObservation ops spec r p) (poll : PollRef) :
    (recordFromHistory ops (templateOf ops.canonicalIdOf r) (historyRowOf r spec poll)
      (hashesNamed (historyRowOf r spec poll) poll)).map Fields.value = .ok r.value ↔
    r.get "tombstone" = none ∧ KeepsRawRef p poll :=
  ⟨kept_of_roundTrip h, fun hkept => roundTrip_of_kept h hkept.1 hkept.2⟩

end Readings

/-! ## A reading of a speed -/

section Speed

/-- The canonical text of the reading's series and point, and of its content. -/
def speedTexts : String × String :=
  ("[\"feature:oc:feature:de-ndw:s1\",\"traffic.speed\",\"\",\"2026-10-" ++
    "01T10:00:00.000Z\",null]",
    "\x7b\"aggregation\":\"mean\",\"class\":\"observation\",\"id\":\"oc:observa" ++
    "tion:de-ndw:5c9a567c2389026abec014efbee1a830a2ebda28ffaa6ead" ++
    "a0c0c510b615a8ef\",\"kind\":\"observation\",\"location\":\x7b\"extent\":" ++
    "\"area\",\"fuzziness\":\"exact\",\"geometry\":null,\"geometryOrigin\":" ++
    "\"none\"\x7d,\"phenomenonTime\":\x7b\"instant\":\"2026-10-01T10:00:00.000" ++
    "Z\"\x7d,\"property\":\"traffic.speed\",\"provenance\":\x7b\"accessMode\":\"b" ++
    "ulk\",\"attribution\":\x7b\"license\":\"CC0-1.0\",\"provider\":\"NDW\"\x7d,\"o" ++
    "rigin\":\"feed\",\"privacy\":\x7b\"class\":\"authoritative\"\x7d,\"recordId\"" ++
    ":\"s1\",\"sourceFormat\":\"datex2\",\"sourceId\":\"de-ndw\"\x7d,\"result\":" ++
    "\x7b\"type\":\"quantity\",\"unit\":\"km/h\",\"value\":50\x7d,\"subject\":\x7b\"fea" ++
    "tureId\":\"oc:feature:de-ndw:s1\",\"kind\":\"feature\"\x7d,\"temporalit" ++
    "y\":\"live\"\x7d")

/-- Their hashes, and that of the reading's record id. -/
def speedHashes : String × String × String :=
  ("5c9a567c2389026abec014efbee1a830a2ebda28ffaa6eada0c0c510b615a8ef",
    "777d05e12ecfbd8a5365748fb640dde89c36d24464b1a5e88f0c657f9fa88fd5",
    "d781b26c6f7a28242a0c8e14d8089814e4fdd61f9c4060ae966ea61a0449bf64")

/-- What the derivation of the reading's fields rests on. -/
def speedOps : RecordOps where
  property _ := some (.quantity "km/h")
  canonicalIdOf _ _ := speedHashes.2.2
  jcs
    | .arr _ => speedTexts.1
    | _ => speedTexts.2
  sha256Hex text := if text = speedTexts.1 then speedHashes.1 else speedHashes.2.1
  toISOString text := some text

/-- A hash of a payload. -/
def speedPayload : String := "aaaaaaaaaaaaaaaaaaaaaaaaaaaaaaaaaaaaaaaaaaaaaaaaaaaaaaaaaaaaaaaa"

/-- The provenance of the reading, which names its payload. -/
def speedProvenance : Fields :=
  [("origin", .str "feed"), ("sourceId", .str "de-ndw"), ("sourceFormat", .str "datex2"),
    ("accessMode", .str "bulk"), ("recordId", .str "s1"),
    ("attribution", .obj [("provider", .str "NDW"), ("license", .str "CC0-1.0")]),
    ("rawRef", .obj [("hash", .str speedPayload)]), ("instanceId", .str "test.local"),
    ("privacy", .obj [("class", .str "authoritative")])]

/-- A reading of a speed. -/
def speedReading : Fields :=
  [("id", .str ("oc:observation:de-ndw:" ++ speedHashes.1)), ("class", .str "observation"),
    ("kind", .str "observation"), ("property", .str "traffic.speed"), ("domain", .str "traffic"),
    ("subject", .obj [("kind", .str "feature"), ("featureId", .str "oc:feature:de-ndw:s1")]),
    ("location", .obj [("geometry", .null), ("extent", .str "area"),
      ("geometryOrigin", .str "none"), ("fuzziness", .str "exact")]),
    ("temporality", .str "live"), ("aggregation", .str "mean"), ("revision", .num 1),
    ("recordedAt", .str "2026-10-01T10:00:05.000Z"), ("canonicalId", .str speedHashes.2.2),
    ("contentHash", .str speedHashes.2.1),
    ("result", .obj [("type", .str "quantity"), ("value", .num 50), ("unit", .str "km/h")]),
    ("phenomenonTime", .obj [("instant", .str "2026-10-01T10:00:00.000Z")]),
    ("freshness", .obj [("fetchedAt", .str "2026-10-01T10:00:00.000Z")]),
    ("provenance", .obj speedProvenance)]

/-- The fields of an object are those of its entries. -/
theorem mem_of_entries {fields : Fields} {keys : List String}
    (h : ∀ key ∈ fields.map Prod.fst, key ∈ keys) (key : String) (v : Json)
    (hv : fields.get key = some v) : key ∈ keys :=
  h key (List.mem_map_of_mem (Fields.mem_of_get hv))

/-- Its provenance is that of a reading. -/
theorem speedProvenance_reading : ReadingProvenance speedProvenance where
  keys := mem_of_entries (by decide)
  attribution := ⟨_, rfl⟩
  upstream v hv := absurd hv (by simp [speedProvenance])
  rawRef v hv := by
    obtain rfl := Option.some.inj hv
    exact ⟨_, _, rfl, rfl, mem_of_entries (by decide)⟩
  sourceId := ⟨"de-ndw", rfl, by decide⟩

/-- It is a reading as it is sealed. -/
theorem speedReading_sealed :
    HistoryObservation speedOps (.quantity "km/h") speedReading speedProvenance where
  keys := mem_of_entries (by decide)
  id := ⟨_, ⟨"observation", "de-ndw", speedHashes.1⟩, rfl, by decide +kernel, by decide +kernel, rfl⟩
  contentHash := ⟨speedHashes.2.1, by decide +kernel, rfl⟩
  revision := rfl
  property := ⟨_, rfl, rfl⟩
  result := ⟨_, rfl, "quantity", rfl, fun _ => ⟨⟨50, rfl⟩, rfl⟩⟩
  phenomenonTime := ⟨_, rfl, Or.inl ⟨_, rfl, fun key v hv => by
    have hmem : key ∈ ["instant"] := mem_of_entries (by decide) key v hv
    simpa using hmem⟩⟩
  provenance := rfl
  reading := speedProvenance_reading
  freshness := ⟨_, rfl⟩
  forecast v hv := absurd hv (by simp [speedReading])
  present := by simp [speedReading]
  sinceAt := rfl
  evidence := rfl

/-- With the id of its poll the reading is read back whole. -/
theorem recordFromHistory_historyRowOf_speed :
    (recordFromHistory speedOps (templateOf speedOps.canonicalIdOf speedReading)
      (historyRowOf speedReading (.quantity "km/h") ⟨some 7, some [speedPayload]⟩)
      (hashesNamed (historyRowOf speedReading (.quantity "km/h") ⟨some 7, some [speedPayload]⟩)
        ⟨some 7, some [speedPayload]⟩)).map Fields.value = .ok speedReading.value ↔
    speedReading.get "tombstone" = none ∧
      KeepsRawRef speedProvenance ⟨some 7, some [speedPayload]⟩ :=
  recordFromHistory_historyRowOf_iff speedReading_sealed _

/-- Of a poll that is not recorded it is read back without its raw reference. -/
theorem recordFromHistory_noFetchId :
    (recordFromHistory speedOps (templateOf speedOps.canonicalIdOf speedReading)
      (historyRowOf speedReading (.quantity "km/h") ⟨none, some [speedPayload]⟩)
      (hashesNamed (historyRowOf speedReading (.quantity "km/h") ⟨none, some [speedPayload]⟩)
        ⟨none, some [speedPayload]⟩)).map Fields.value ≠ .ok speedReading.value := by
  intro hround
  obtain ⟨-, hkeeps⟩ := kept_of_roundTrip speedReading_sealed hround
  rcases hkeeps [("hash", .str speedPayload)] rfl with h | h | h | h
  · cases h
  · cases h
  · cases h
  · exact h speedPayload rfl (List.mem_singleton_self _)

end Speed

end OpenConditions.Core

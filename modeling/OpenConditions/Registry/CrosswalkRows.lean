import OpenConditions.Registry.Crosswalk

set_option relaxedAutoImplicit false
set_option autoImplicit false

/-!
# What the crosswalk's indexes hold

Each index is the entering of its own rows, and its keys tell what was entered, as long as codes of
kinds, types and subtypes hold no dot and names of vocabularies and values no character of code 0.

## Main definitions

* `PlainCodes` — no part of a code can be taken for two.
* `Indexed` — the indexes are those of some rows.

## Main results

* `indexed_of_buildCrosswalk` — so they are for the rows of the entries.
-/

namespace OpenConditions.Registry

/-! ## Codes and keys -/

/-- A text without a dot. -/
def DotFree (s : String) : Prop := '.' ∉ s.toList

/-- A text without the character of code 0. -/
def NulFree (s : String) : Prop := Char.ofNat 0 ∉ s.toList

/-- A list is split at a value that is in neither first part. -/
theorem append_cons_inj {α : Type} {a : α} {x x' y y' : List α} (hx : a ∉ x) (hx' : a ∉ x')
    (h : x ++ a :: y = x' ++ a :: y') : x = x' ∧ y = y' := by
  induction x generalizing x' with
  | nil =>
    cases x' with
    | nil => exact ⟨rfl, (List.cons.inj h).2⟩
    | cons b x' =>
      obtain ⟨rfl, -⟩ := List.cons.inj h
      exact absurd (List.mem_cons_self ..) hx'
  | cons b x ih =>
    cases x' with
    | nil =>
      obtain ⟨rfl, -⟩ := List.cons.inj h
      exact absurd (List.mem_cons_self ..) hx
    | cons b' x' =>
      obtain ⟨rfl, hrest⟩ := List.cons.inj h
      obtain ⟨rfl, rfl⟩ := ih (fun hm => hx (List.mem_cons_of_mem _ hm))
        (fun hm => hx' (List.mem_cons_of_mem _ hm)) hrest
      exact ⟨rfl, rfl⟩

/-- Parts without dots are told by their code. -/
theorem joinDots_inj : ∀ {ps qs : List String}, (∀ p ∈ ps, DotFree p) → (∀ q ∈ qs, DotFree q) →
    ps ≠ [] → qs ≠ [] → joinDots ps = joinDots qs → ps = qs := by
  intro ps
  induction ps with
  | nil =>
    intro qs _ _ hps _ _
    exact absurd rfl hps
  | cons p ps ih =>
    intro qs hps hqs _ hqsne h
    obtain ⟨q, qs, rfl⟩ := List.exists_cons_of_ne_nil hqsne
    have hp := hps p (List.mem_cons_self ..)
    have hq := hqs q (List.mem_cons_self ..)
    cases ps with
    | nil =>
      cases qs with
      | nil => rw [String.toList_injective h]
      | cons q' qs =>
        simp only [joinDots] at h
        exact absurd (by rw [h]; simp) hp
    | cons p' ps =>
      cases qs with
      | nil =>
        simp only [joinDots] at h
        exact absurd (by rw [← h]; simp) hq
      | cons q' qs =>
        simp only [joinDots] at h
        obtain ⟨hfirst, hcodes⟩ := append_cons_inj hp hq h
        have hrest := ih (fun x hx => hps x (List.mem_cons_of_mem _ hx))
          (fun x hx => hqs x (List.mem_cons_of_mem _ hx)) (List.cons_ne_nil _ _)
          (List.cons_ne_nil _ _) hcodes
        rw [String.toList_injective hfirst, hrest]

/-- The parts of a situation classification. -/
def SituationClass.parts (c : SituationClass) : List String := c.kind :: c.type :: c.subtype.toList

/-- The parts of a feature classification. -/
def FeatureClass.parts (c : FeatureClass) : List String :=
  c.kind :: c.type.toList ++ c.subtype.toList

/-- A key tells its two parts, if the first holds no character of code 0. -/
theorem keyOf_inj {a b a' b' : String} (ha : NulFree a) (ha' : NulFree a')
    (h : keyOf a b = keyOf a' b') : a = a' ∧ b = b' := by
  have hlists := congrArg String.toList h
  rw [keyOf, keyOf, String.toList_ofList, String.toList_ofList] at hlists
  obtain ⟨hfirst, hsecond⟩ := append_cons_inj ha ha' hlists
  exact ⟨String.toList_injective hfirst, String.toList_injective hsecond⟩

/-- The name of a target tells it. -/
theorem MappingTarget.name_injective : Function.Injective MappingTarget.name := by
  intro t t' h
  cases t <;> cases t' <;> first | rfl | exact absurd h (by decide)

/-- The name of a target is plain. -/
theorem MappingTarget.nulFree_name (t : MappingTarget) : NulFree t.name := by
  cases t <;> (unfold NulFree MappingTarget.name; decide)

/-- A key of a target tells the target and the rest. -/
theorem keyOf_target_inj {t t' : MappingTarget} {b b' : String}
    (h : keyOf t.name b = keyOf t'.name b') : t = t' ∧ b = b' := by
  obtain ⟨ht, hb⟩ := keyOf_inj t.nulFree_name t'.nulFree_name h
  exact ⟨MappingTarget.name_injective ht, hb⟩

/-! ## Entering rows -/

/-- What a row enters in the index of situations. -/
def CrosswalkRow.situationIns : CrosswalkRow → List (String × SituationClass)
  | .situation target c code => if target.ingest then [(keyOf target.name code, c)] else []
  | _ => []

/-- What a row enters in the index of features. -/
def CrosswalkRow.featureIns : CrosswalkRow → List (String × FeatureClass)
  | .feature target c code => if target.ingest then [(keyOf target.name code, c)] else []
  | _ => []

/-- What a row enters in the index of properties. -/
def CrosswalkRow.propertyIns : CrosswalkRow → List (String × String)
  | .property target p code => if target.ingest then [(keyOf target.name code, p)] else []
  | _ => []

/-- What a row enters in the index of values. -/
def CrosswalkRow.valueIns : CrosswalkRow → List (String × String)
  | .value target vocabulary v code =>
    if target.ingest then [(keyOf target.name (keyOf vocabulary code), v)] else []
  | _ => []

/-- What a row enters among the codes of situations. -/
def CrosswalkRow.situationOuts : CrosswalkRow → List (String × String)
  | .situationKind target kind code => [(keyOf target.name kind, code)]
  | .situation target c code => [(keyOf target.name (situationCode c), code)]
  | _ => []

/-- What a row enters among the codes of features. -/
def CrosswalkRow.featureOuts : CrosswalkRow → List (String × String)
  | .feature target c code => [(keyOf target.name (featureCode c), code)]
  | _ => []

/-- What a row enters among the codes of properties. -/
def CrosswalkRow.propertyOuts : CrosswalkRow → List (String × String)
  | .property target p code => [(keyOf target.name p, code)]
  | _ => []

/-- What a row enters among the codes of values. -/
def CrosswalkRow.valueOuts : CrosswalkRow → List (String × String)
  | .value target vocabulary v code => [(keyOf vocabulary (keyOf target.name v), code)]
  | _ => []

/-- A row enters a situation with its code. -/
theorem mem_situationIns {rows : List CrosswalkRow} {key : String} {c : SituationClass} :
    (key, c) ∈ rows.flatMap CrosswalkRow.situationIns ↔ ∃ target code, target.ingest = true ∧
      key = keyOf target.name code ∧ .situation target c code ∈ rows := by
  constructor
  · intro h
    obtain ⟨row, hrow, hin⟩ := List.mem_flatMap.mp h
    cases row <;> simp only [CrosswalkRow.situationIns, List.not_mem_nil] at hin
    next target c' code =>
      split_ifs at hin with hingest
      · obtain ⟨rfl, rfl⟩ := Prod.mk.inj (List.mem_singleton.mp hin)
        exact ⟨target, code, hingest, rfl, hrow⟩
      · cases hin
  · rintro ⟨target, code, hingest, rfl, hrow⟩
    exact List.mem_flatMap.mpr ⟨_, hrow, by simp [CrosswalkRow.situationIns, hingest]⟩

/-- A row enters a feature with its code. -/
theorem mem_featureIns {rows : List CrosswalkRow} {key : String} {c : FeatureClass} :
    (key, c) ∈ rows.flatMap CrosswalkRow.featureIns ↔ ∃ target code, target.ingest = true ∧
      key = keyOf target.name code ∧ .feature target c code ∈ rows := by
  constructor
  · intro h
    obtain ⟨row, hrow, hin⟩ := List.mem_flatMap.mp h
    cases row <;> simp only [CrosswalkRow.featureIns, List.not_mem_nil] at hin
    next target c' code =>
      split_ifs at hin with hingest
      · obtain ⟨rfl, rfl⟩ := Prod.mk.inj (List.mem_singleton.mp hin)
        exact ⟨target, code, hingest, rfl, hrow⟩
      · cases hin
  · rintro ⟨target, code, hingest, rfl, hrow⟩
    exact List.mem_flatMap.mpr ⟨_, hrow, by simp [CrosswalkRow.featureIns, hingest]⟩

/-- A row enters a property with its code. -/
theorem mem_propertyIns {rows : List CrosswalkRow} {key p : String} :
    (key, p) ∈ rows.flatMap CrosswalkRow.propertyIns ↔ ∃ target code, target.ingest = true ∧
      key = keyOf target.name code ∧ .property target p code ∈ rows := by
  constructor
  · intro h
    obtain ⟨row, hrow, hin⟩ := List.mem_flatMap.mp h
    cases row <;> simp only [CrosswalkRow.propertyIns, List.not_mem_nil] at hin
    next target p' code =>
      split_ifs at hin with hingest
      · obtain ⟨rfl, rfl⟩ := Prod.mk.inj (List.mem_singleton.mp hin)
        exact ⟨target, code, hingest, rfl, hrow⟩
      · cases hin
  · rintro ⟨target, code, hingest, rfl, hrow⟩
    exact List.mem_flatMap.mpr ⟨_, hrow, by simp [CrosswalkRow.propertyIns, hingest]⟩

/-- A row enters a value with its vocabulary and code. -/
theorem mem_valueIns {rows : List CrosswalkRow} {key v : String} :
    (key, v) ∈ rows.flatMap CrosswalkRow.valueIns ↔ ∃ target vocabulary code,
      target.ingest = true ∧ key = keyOf target.name (keyOf vocabulary code) ∧
        .value target vocabulary v code ∈ rows := by
  constructor
  · intro h
    obtain ⟨row, hrow, hin⟩ := List.mem_flatMap.mp h
    cases row <;> simp only [CrosswalkRow.valueIns, List.not_mem_nil] at hin
    next target vocabulary v' code =>
      split_ifs at hin with hingest
      · obtain ⟨rfl, rfl⟩ := Prod.mk.inj (List.mem_singleton.mp hin)
        exact ⟨target, vocabulary, code, hingest, rfl, hrow⟩
      · cases hin
  · rintro ⟨target, vocabulary, code, hingest, rfl, hrow⟩
    exact List.mem_flatMap.mpr ⟨_, hrow, by simp [CrosswalkRow.valueIns, hingest]⟩

/-- A code among those of situations is of a kind, or of a type. -/
theorem mem_situationOuts {rows : List CrosswalkRow} {key code : String} :
    (key, code) ∈ rows.flatMap CrosswalkRow.situationOuts ↔
      (∃ target kind, key = keyOf target.name kind ∧ .situationKind target kind code ∈ rows) ∨
        ∃ target c, key = keyOf target.name (situationCode c) ∧
          .situation target c code ∈ rows := by
  constructor
  · intro h
    obtain ⟨row, hrow, hin⟩ := List.mem_flatMap.mp h
    cases row <;> simp only [CrosswalkRow.situationOuts, List.not_mem_nil] at hin
    · obtain ⟨rfl, rfl⟩ := Prod.mk.inj (List.mem_singleton.mp hin)
      exact Or.inl ⟨_, _, rfl, hrow⟩
    · obtain ⟨rfl, rfl⟩ := Prod.mk.inj (List.mem_singleton.mp hin)
      exact Or.inr ⟨_, _, rfl, hrow⟩
  · rintro (⟨target, kind, rfl, hrow⟩ | ⟨target, c, rfl, hrow⟩)
    · exact List.mem_flatMap.mpr ⟨_, hrow, by simp [CrosswalkRow.situationOuts]⟩
    · exact List.mem_flatMap.mpr ⟨_, hrow, by simp [CrosswalkRow.situationOuts]⟩

/-- A code among those of features. -/
theorem mem_featureOuts {rows : List CrosswalkRow} {key code : String} :
    (key, code) ∈ rows.flatMap CrosswalkRow.featureOuts ↔ ∃ target c,
      key = keyOf target.name (featureCode c) ∧ .feature target c code ∈ rows := by
  constructor
  · intro h
    obtain ⟨row, hrow, hin⟩ := List.mem_flatMap.mp h
    cases row <;> simp only [CrosswalkRow.featureOuts, List.not_mem_nil] at hin
    obtain ⟨rfl, rfl⟩ := Prod.mk.inj (List.mem_singleton.mp hin)
    exact ⟨_, _, rfl, hrow⟩
  · rintro ⟨target, c, rfl, hrow⟩
    exact List.mem_flatMap.mpr ⟨_, hrow, by simp [CrosswalkRow.featureOuts]⟩

/-- A code among those of properties. -/
theorem mem_propertyOuts {rows : List CrosswalkRow} {key code : String} :
    (key, code) ∈ rows.flatMap CrosswalkRow.propertyOuts ↔ ∃ target p,
      key = keyOf target.name p ∧ .property target p code ∈ rows := by
  constructor
  · intro h
    obtain ⟨row, hrow, hin⟩ := List.mem_flatMap.mp h
    cases row <;> simp only [CrosswalkRow.propertyOuts, List.not_mem_nil] at hin
    obtain ⟨rfl, rfl⟩ := Prod.mk.inj (List.mem_singleton.mp hin)
    exact ⟨_, _, rfl, hrow⟩
  · rintro ⟨target, p, rfl, hrow⟩
    exact List.mem_flatMap.mpr ⟨_, hrow, by simp [CrosswalkRow.propertyOuts]⟩

/-- A code among those of values. -/
theorem mem_valueOuts {rows : List CrosswalkRow} {key code : String} :
    (key, code) ∈ rows.flatMap CrosswalkRow.valueOuts ↔ ∃ target vocabulary v,
      key = keyOf vocabulary (keyOf target.name v) ∧ .value target vocabulary v code ∈ rows := by
  constructor
  · intro h
    obtain ⟨row, hrow, hin⟩ := List.mem_flatMap.mp h
    cases row <;> simp only [CrosswalkRow.valueOuts, List.not_mem_nil] at hin
    obtain ⟨rfl, rfl⟩ := Prod.mk.inj (List.mem_singleton.mp hin)
    exact ⟨_, _, _, rfl, hrow⟩
  · rintro ⟨target, vocabulary, v, rfl, hrow⟩
    exact List.mem_flatMap.mpr ⟨_, hrow, by simp [CrosswalkRow.valueOuts]⟩

/-! ## The codes of a value -/

/-- A code among those of a value was there, or was entered. -/
theorem mem_of_get_addCode {rows : List (String × String)} : ∀ {out : OrderedMap String (List String)}
    {key code : String} {codes : List String},
    (rows.foldl (fun out row => addCode out row.1 row.2) out).get key = some codes → code ∈ codes →
      (∃ codes, out.get key = some codes ∧ code ∈ codes) ∨ (key, code) ∈ rows := by
  induction rows with
  | nil =>
    intro out key code codes h hcode
    exact Or.inl ⟨codes, h, hcode⟩
  | cons row rows ih =>
    intro out key code codes h hcode
    rw [List.foldl_cons] at h
    rcases ih h hcode with ⟨codes, hget, hcode⟩ | hmem
    · unfold addCode at hget
      simp only at hget
      split_ifs at hget with hheld
      · exact Or.inl ⟨codes, hget, hcode⟩
      · rw [OrderedMap.get_set] at hget
        split_ifs at hget with hkey
        · subst hkey
          obtain rfl := Option.some.inj hget
          rcases List.mem_append.mp hcode with hcode | hcode
          · cases hout : out.get row.1 with
            | none =>
              rw [hout] at hcode
              cases hcode
            | some codes =>
              rw [hout] at hcode
              exact Or.inl ⟨codes, rfl, hcode⟩
          · obtain rfl := List.mem_singleton.mp hcode
            exact Or.inr (List.mem_cons_self ..)
        · exact Or.inl ⟨codes, hget, hcode⟩
    · exact Or.inr (List.mem_cons_of_mem _ hmem)

/-- A code stays among those of a value. -/
theorem get_addCode_of_get {rows : List (String × String)} : ∀ {out : OrderedMap String (List String)}
    {key code : String}, (∃ codes, out.get key = some codes ∧ code ∈ codes) ∨ (key, code) ∈ rows →
      ∃ codes, (rows.foldl (fun out row => addCode out row.1 row.2) out).get key = some codes ∧
        code ∈ codes := by
  induction rows with
  | nil =>
    intro out key code h
    exact h.resolve_right List.not_mem_nil
  | cons row rows ih =>
    intro out key code h
    rw [List.foldl_cons]
    refine ih ?_
    have hadd : ∀ {key code}, (∃ codes, out.get key = some codes ∧ code ∈ codes) ∨
        (key, code) = row → ∃ codes, (addCode out row.1 row.2).get key = some codes ∧
          code ∈ codes := by
      intro key code h
      unfold addCode
      simp only
      split_ifs with hheld
      · rcases h with h | rfl
        · exact h
        · cases hout : out.get key with
          | none =>
            rw [hout] at hheld
            cases hheld
          | some codes =>
            rw [hout] at hheld
            exact ⟨codes, rfl, List.contains_iff_mem.mp hheld⟩
      · by_cases hkey : key = row.1
        · subst hkey
          refine ⟨_, OrderedMap.get_set_self _ _ _, ?_⟩
          rcases h with ⟨codes, hget, hcode⟩ | h
          · rw [hget]
            exact List.mem_append_left _ hcode
          · rw [← h]
            exact List.mem_append_right _ (List.mem_singleton_self _)
        · rw [OrderedMap.get_set_of_ne _ _ hkey]
          rcases h with h | rfl
          · exact h
          · exact absurd rfl hkey
    rcases h with h | h
    · exact Or.inl (hadd (Or.inl h))
    · rcases List.mem_cons.mp h with h | h
      · exact Or.inl (hadd (Or.inr h))
      · exact Or.inr h

/-! ## The indexes of rows -/

/-- **The indexes after some rows**: each is the entering of its own. -/
structure Indexed (cw : Crosswalk) (rows : List CrosswalkRow) (cw' : Crosswalk) : Prop where
  situations : (rows.flatMap CrosswalkRow.situationIns).foldlM (CodeIndex.add situationCode)
    cw.situations = some cw'.situations
  features : (rows.flatMap CrosswalkRow.featureIns).foldlM (CodeIndex.add featureCode)
    cw.features = some cw'.features
  properties : (rows.flatMap CrosswalkRow.propertyIns).foldlM (CodeIndex.add id)
    cw.properties = some cw'.properties
  values : (rows.flatMap CrosswalkRow.valueIns).foldlM (CodeIndex.add id)
    cw.values = some cw'.values
  situationOut : cw'.situationOut =
    (rows.flatMap CrosswalkRow.situationOuts).foldl CodeIndex.addFirst cw.situationOut
  featureOut : cw'.featureOut =
    (rows.flatMap CrosswalkRow.featureOuts).foldl CodeIndex.addFirst cw.featureOut
  propertyOut : cw'.propertyOut =
    (rows.flatMap CrosswalkRow.propertyOuts).foldl CodeIndex.addFirst cw.propertyOut
  valueOut : cw'.valueOut =
    (rows.flatMap CrosswalkRow.valueOuts).foldl (fun out row => addCode out row.1 row.2) cw.valueOut

/-- A value entered in an index, if the target is parsed. -/
theorem enter_eq_ok {α : Type} {codeOf : α → String} {index index' : OrderedMap String α}
    {target : MappingTarget} {key code : String} {value : α} {where_ : String}
    (h : enter codeOf index target key code value where_ = .ok index') :
    (if target.ingest then [(keyOf target.name key, value)] else []).foldlM
      (CodeIndex.add codeOf) index = some index' := by
  unfold enter at h
  split_ifs at h ⊢ with hingest
  · cases hadd : CodeIndex.add codeOf index (keyOf target.name key, value) with
    | none =>
      rw [hadd] at h
      cases h
    | some held =>
      rw [hadd] at h
      cases h
      rw [List.foldlM_cons, hadd]
      rfl
  · cases h
    rfl

/-- One row. -/
theorem indexed_enterRow {cw cw' : Crosswalk} {row : CrosswalkRow}
    (h : cw.enterRow row = .ok cw') : Indexed cw [row] cw' := by
  have hpeel : ∀ {α : Type} {x : Except String α} {f : α → Except String Crosswalk},
      (x >>= f) = .ok cw' → ∃ a, x = .ok a ∧ f a = .ok cw' := by
    intro α x f hx
    cases x with
    | error e => cases hx
    | ok a => exact ⟨a, rfl, hx⟩
  cases row with
  | unregistered where_ key => cases h
  | situationKind target kind code =>
    cases h
    exact ⟨rfl, rfl, rfl, rfl, rfl, rfl, rfl, rfl⟩
  | situation target c code =>
    obtain ⟨index, hindex, heq⟩ := hpeel h
    cases heq
    exact ⟨by simpa [CrosswalkRow.situationIns] using enter_eq_ok hindex, rfl, rfl, rfl, rfl, rfl,
      rfl, rfl⟩
  | feature target c code =>
    obtain ⟨index, hindex, heq⟩ := hpeel h
    cases heq
    exact ⟨rfl, by simpa [CrosswalkRow.featureIns] using enter_eq_ok hindex, rfl, rfl, rfl, rfl,
      rfl, rfl⟩
  | property target property code =>
    obtain ⟨index, hindex, heq⟩ := hpeel h
    cases heq
    exact ⟨rfl, rfl, by simpa [CrosswalkRow.propertyIns] using enter_eq_ok hindex, rfl, rfl, rfl,
      rfl, rfl⟩
  | value target vocabulary value code =>
    obtain ⟨index, hindex, heq⟩ := hpeel h
    cases heq
    exact ⟨rfl, rfl, rfl, by simpa [CrosswalkRow.valueIns] using enter_eq_ok hindex, rfl, rfl, rfl,
      rfl⟩

/-- More rows after some. -/
theorem Indexed.append {cw cw₁ cw₂ : Crosswalk} {rows rows' : List CrosswalkRow}
    (h : Indexed cw rows cw₁) (h' : Indexed cw₁ rows' cw₂) : Indexed cw (rows ++ rows') cw₂ where
  situations := by
    rw [List.flatMap_append, List.foldlM_append, h.situations]
    exact h'.situations
  features := by
    rw [List.flatMap_append, List.foldlM_append, h.features]
    exact h'.features
  properties := by
    rw [List.flatMap_append, List.foldlM_append, h.properties]
    exact h'.properties
  values := by
    rw [List.flatMap_append, List.foldlM_append, h.values]
    exact h'.values
  situationOut := by rw [List.flatMap_append, List.foldl_append, ← h.situationOut, h'.situationOut]
  featureOut := by rw [List.flatMap_append, List.foldl_append, ← h.featureOut, h'.featureOut]
  propertyOut := by rw [List.flatMap_append, List.foldl_append, ← h.propertyOut, h'.propertyOut]
  valueOut := by rw [List.flatMap_append, List.foldl_append, ← h.valueOut, h'.valueOut]

/-- **The indexes of the entries are those of their rows.** -/
theorem indexed_of_buildCrosswalk {entries : List RegistryEntry} {cw : Crosswalk}
    (h : buildCrosswalk entries = .ok cw) : Indexed .empty (entries.flatMap rowsOf) cw := by
  have hgeneral : ∀ (rows : List CrosswalkRow) {cw cw' : Crosswalk},
      rows.foldlM Crosswalk.enterRow cw = .ok cw' → Indexed cw rows cw' := by
    intro rows
    induction rows with
    | nil =>
      intro cw cw' h
      cases h
      exact ⟨rfl, rfl, rfl, rfl, rfl, rfl, rfl, rfl⟩
    | cons row rows ih =>
      intro cw cw' h
      rw [List.foldlM_cons] at h
      cases hrow : cw.enterRow row with
      | error e =>
        rw [hrow] at h
        cases h
      | ok cw₁ =>
        rw [hrow] at h
        exact (indexed_enterRow hrow).append (ih h)
  exact hgeneral _ h

end OpenConditions.Registry

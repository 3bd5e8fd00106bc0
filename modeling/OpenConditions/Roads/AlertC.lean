import OpenConditions.Lib.FloatText
import OpenConditions.Lib.OrderedMap
import OpenConditions.Schedules.Recurrence

set_option relaxedAutoImplicit false
set_option autoImplicit false

/-!
# Location codes

Turning an Alert-C reference into geometry by a location table
(`packages/roads/src/tmc/resolve.ts`).  A code of another edition than the table's counts only when
the record names the road that its points lie on; a stretch follows the links of the table from the
secondary point to the primary one.

## Main definitions

* `TmcLocationTable`, `AlertCReference` — location tables and references.
* `sameVersion`, `sameRoad` — how editions and roads are compared.
* `chain` — the codes from one to another along the links of a table.
* `resolveAlertC` — the geometry of a reference.
* `Connected`, `vertexCodes` — how codes are linked, and the codes that a geometry goes through.
* `NamesEdition`, `OnRoad`, `Verified` — when a geometry is to be trusted.

## Main results

* `chain_spec`, `chain_eq_none_iff` — a chain follows the links of one direction, within its limit,
  and there is none only where no direction connects the codes.
* `resolveAlertC_eq_ok_iff` — which references resolve, and to what.
* `verified_iff` — what is left unchecked: codes between the two named ones, and editions that are
  compared as one without being one.
-/

namespace OpenConditions.Roads

open Schedules (trimmed isTrimmed)

/-! ## Tables and references -/

/-- A coded point of a table; the links are to the codes before and after it on its road. -/
structure TmcPoint where
  lon : ℚ
  lat : ℚ
  pos : Option ℤ := none
  neg : Option ℤ := none
  road : Option String := none
  deriving DecidableEq, Repr

/-- A location table of one country and number, of one edition. -/
structure TmcLocationTable where
  cid : ℤ
  tabcd : ℚ
  version : String
  ccd : Option String := none
  ecc : Option String := none
  points : OrderedMap ℤ TmcPoint

/-- A reference as a record has it. -/
structure AlertCReference where
  country : Option String := none
  table : Option String := none
  version : Option String := none
  primary : Option ℤ := none
  secondary : Option ℤ := none
  road : Option String := none

/-- Why a reference has no geometry. -/
inductive TmcUnresolvedReason where
  | noReference
  | noTable
  | versionMismatch
  | versionMissing
  | unknownCode
  deriving DecidableEq, Repr

/-- A point, or a line. -/
inductive TmcGeometry where
  | point (position : ℚ × ℚ)
  | lineString (coordinates : List (ℚ × ℚ))
  deriving DecidableEq, Repr

/-- The geometry of a reference, and the table it is of. -/
structure TmcResolved where
  geometry : TmcGeometry
  table : TmcLocationTable
  viaRoadMatch : Bool

/-- The texts that the standard library makes of others: upper case, and numbers from `10 ^ 21`
on. -/
structure TmcText where
  toUpperCase : String → String
  largeNumber : ℚ → String

/-- A text that is there and not empty. -/
def stated (text : Option String) : Option String := text.filter fun s => decide (s ≠ "")

/-- A code that is there and not zero. -/
def statedCode (code : Option ℤ) : Option ℤ := code.filter fun c => decide (c ≠ 0)

section Resolve

variable (T : TmcText)

/-! ## Roads and editions -/

/-- The letters and digits of a road's name. -/
def roadName (s : String) : List Char :=
  (T.toUpperCase s).toList.filter fun c => ('A' ≤ c && c ≤ 'Z') || ('0' ≤ c && c ≤ '9')

/-- Whether two texts name one road: one of them may carry more at its front. -/
def sameRoad (a b : Option String) : Bool :=
  match stated a, stated b with
  | some a, some b =>
    let x := roadName T a
    let y := roadName T b
    decide (x ≠ [] ∧ y ≠ []) && (decide (x = y) || y.isSuffixOf x || x.isSuffixOf y)
  | _, _ => false

/-- `Number.parseFloat` — the finite number at the front of a text. -/
def parseFloat (s : String) : Option ℚ := FloatText.parse (s.toList.dropWhile isTrimmed)

/-- Whether a table is of the country and the number of a reference. -/
def matchesTable (table : TmcLocationTable) (ref : AlertCReference) : Bool :=
  match ref.country.bind fun c =>
      stated (some (T.toUpperCase (String.ofList (trimmed c.toList)))) with
  | none => false
  | some country =>
    decide (some country ∈ [some (toString table.cid), table.ccd.map T.toUpperCase,
      table.ecc.map T.toUpperCase]) &&
    (stated ref.table).all fun number => decide (parseFloat number = some table.tabcd)

/-- What an edition is compared by: two decimals, or the text where it is no number. -/
def versionName (v : String) : String :=
  match parseFloat v with
  | some n => FloatText.toFixed2 T.largeNumber n
  | none => T.toUpperCase (String.ofList (trimmed v.toList))

/-- Whether two texts name one edition. -/
def sameVersion (a b : String) : Bool := decide (versionName T a = versionName T b)

/-! ## Chains -/

/-- The direction of a link. -/
inductive LinkDirection where
  | pos
  | neg
  deriving DecidableEq, Repr

/-- The code that a code is linked to. -/
def linkOf (table : TmcLocationTable) (dir : LinkDirection) (code : ℤ) : Option ℤ :=
  (table.points.get code).bind fun p =>
    match dir with
    | .pos => p.pos
    | .neg => p.neg

/-- The codes after one up to another along the links of a direction, within a number of links. -/
def follow (table : TmcLocationTable) (dir : LinkDirection) (last : ℤ) :
    ℕ → ℤ → Option (List ℤ)
  | 0, _ => none
  | n + 1, cur =>
    match linkOf table dir cur with
    | none => none
    | some next =>
      if next = last then some [next] else (follow table dir last n next).map (next :: ·)

/-- How many links a chain may take. -/
def chainLimit : ℕ := 200

/-- The codes from one to another along the links of a direction. -/
def chain (table : TmcLocationTable) (first last : ℤ) : Option (List ℤ) :=
  ((follow table .pos last chainLimit first).or (follow table .neg last chainLimit first)).map
    (first :: ·)

/-! ## Resolving -/

/-- Where a code is. -/
def positionOf (table : TmcLocationTable) (code : ℤ) : Option (ℚ × ℚ) :=
  (table.points.get code).map fun p => (p.lon, p.lat)

/-- The named points whose road the table knows. -/
def knownPoints (named : List (Option TmcPoint)) : List TmcPoint :=
  (named.filterMap id).filter fun p => (stated p.road).isSome

/-- The coordinates of a stretch: along its chain, or straight where there is none. -/
def stretchCoordinates (table : TmcLocationTable) (secondaryCode primaryCode : ℤ)
    (secondary primary : TmcPoint) : List (ℚ × ℚ) :=
  match chain table secondaryCode primaryCode with
  | some walked => walked.filterMap (positionOf table)
  | none => [(secondary.lon, secondary.lat), (primary.lon, primary.lat)]

/-- The geometry of a reference whose primary point is known: a line when there is another end. -/
def resolvedGeometry (table : TmcLocationTable) (ref : AlertCReference) (primaryCode : ℤ)
    (primary : TmcPoint) : TmcGeometry :=
  match statedCode ref.secondary, (statedCode ref.secondary).bind table.points.get with
  | some secondaryCode, some secondary =>
    if secondaryCode = primaryCode then .point (primary.lon, primary.lat)
    else
      let coordinates := stretchCoordinates table secondaryCode primaryCode secondary primary
      if coordinates.length < 2 then .point (primary.lon, primary.lat)
      else .lineString coordinates
  | _, _ => .point (primary.lon, primary.lat)

/-- The points that a reference names. -/
def namedPoints (table : TmcLocationTable) (ref : AlertCReference) (primaryCode : ℤ) :
    List (Option TmcPoint) :=
  [table.points.get primaryCode, (statedCode ref.secondary).bind table.points.get]

/-- The geometry of a reference, by the first table of its country and number. -/
def resolveAlertC (ref : AlertCReference) (tables : List TmcLocationTable) :
    Except TmcUnresolvedReason TmcResolved :=
  match statedCode ref.primary with
  | none => .error .noReference
  | some primaryCode =>
    match tables.find? fun t => matchesTable T t ref with
    | none => .error .noTable
    | some table =>
      match stated ref.version with
      | none => .error .versionMissing
      | some version =>
        let viaRoadMatch := !sameVersion T version table.version
        let known := knownPoints (namedPoints table ref primaryCode)
        if viaRoadMatch && (known.isEmpty || !known.all fun p => sameRoad T p.road ref.road) then
          .error .versionMismatch
        else
          match table.points.get primaryCode with
          | none => .error .unknownCode
          | some primary =>
            .ok ⟨resolvedGeometry table ref primaryCode primary, table, viaRoadMatch⟩

/-! ## What a geometry goes through -/

/-- The road that a record names, or none that the table knows of a code. -/
def OnRoad (table : TmcLocationTable) (road : Option String) (code : ℤ) : Prop :=
  ∀ p, table.points.get code = some p → stated p.road ≠ none → sameRoad T p.road road = true

/-- The number that a text spells. -/
def spelledNumber (s : String) : Option ℚ := FloatText.spelled (trimmed s.toList)

/-- Two texts name one edition: both spell one number or, where one spells none, they are one text
in upper case. -/
def SameEdition (a b : String) : Prop :=
  if (spelledNumber a).isSome ∧ (spelledNumber b).isSome then spelledNumber a = spelledNumber b
  else T.toUpperCase (String.ofList (trimmed a.toList)) =
    T.toUpperCase (String.ofList (trimmed b.toList))

instance (a b : String) : Decidable (SameEdition T a b) :=
  inferInstanceAs (Decidable (if (spelledNumber a).isSome ∧ (spelledNumber b).isSome then
    spelledNumber a = spelledNumber b
  else T.toUpperCase (String.ofList (trimmed a.toList)) =
    T.toUpperCase (String.ofList (trimmed b.toList))))

/-- The points that a reference names vouch for it: the table knows a road of one of them, and each
that it knows is the road of the record. -/
structure Vouched (table : TmcLocationTable) (ref : AlertCReference) (primary : ℤ) : Prop where
  known : knownPoints (namedPoints table ref primary) ≠ []
  road : ∀ p ∈ knownPoints (namedPoints table ref primary), sameRoad T p.road ref.road = true

/-- A reference resolves by a table: it is the first one of its country and number, it has the
primary code, and its edition compares as the stated one or the named points vouch. -/
structure Accepted (ref : AlertCReference) (tables : List TmcLocationTable)
    (table : TmcLocationTable) (primary : ℤ) (version : String) : Prop where
  named : statedCode ref.primary = some primary
  chosen : tables.find? (fun t => matchesTable T t ref) = some table
  dated : stated ref.version = some version
  coded : (table.points.get primary).isSome = true
  edition : sameVersion T version table.version = true ∨ Vouched T table ref primary

/-- A reference names the edition of a table. -/
def NamesEdition (ref : AlertCReference) (table : TmcLocationTable) : Prop :=
  ∃ version, stated ref.version = some version ∧ SameEdition T version table.version

end Resolve

/-- A code that is linked to another in a direction. -/
def Linked (table : TmcLocationTable) (dir : LinkDirection) (a b : ℤ) : Prop :=
  linkOf table dir a = some b

/-- Codes from one to another, each linked to the next in a direction, within the limit. -/
structure Walk (table : TmcLocationTable) (dir : LinkDirection) (first last : ℤ)
    (codes : List ℤ) : Prop where
  head : codes.head? = some first
  final : codes.getLast? = some last
  linked : codes.IsChain (Linked table dir)
  long : 2 ≤ codes.length
  limit : codes.length ≤ chainLimit + 1

/-- Two codes are connected within the limit. -/
def Connected (table : TmcLocationTable) (first last : ℤ) : Prop :=
  ∃ dir codes, Walk table dir first last codes

/-- The secondary code of a reference, when the table has it and it is not the primary one. -/
def otherEnd (table : TmcLocationTable) (ref : AlertCReference) (primary : ℤ) : Option ℤ :=
  (statedCode ref.secondary).filter fun code =>
    (table.points.get code).isSome && decide (code ≠ primary)

/-- The codes that the geometry of a reference goes through. -/
def vertexCodes (table : TmcLocationTable) (ref : AlertCReference) (primary : ℤ) : List ℤ :=
  match otherEnd table ref primary with
  | none => [primary]
  | some secondary => (chain table secondary primary).getD [secondary, primary]

/-- The geometry of some codes. -/
def geometryOf (table : TmcLocationTable) (codes : List ℤ) : TmcGeometry :=
  match codes.filterMap (positionOf table) with
  | [position] => .point position
  | positions => .lineString positions

/-- The codes of a geometry are right: the primary one alone, or a stretch from the secondary one to
it that follows the links of the table, and that is straight only where they do not connect. -/
structure Drawn (table : TmcLocationTable) (ref : AlertCReference) (primary : ℤ)
    (codes : List ℤ) : Prop where
  coded : ∀ code ∈ codes, (table.points.get code).isSome
  shape : codes = [primary] ∨ ∃ secondary, statedCode ref.secondary = some secondary ∧
    ((∃ dir, Walk table dir secondary primary codes) ∨
      codes = [secondary, primary] ∧ ¬Connected table secondary primary)

/-! ## Chains follow links -/

/-- Codes that are followed are linked, end with the last code and are within the limit. -/
theorem follow_spec {table : TmcLocationTable} {dir : LinkDirection} {last : ℤ} {n : ℕ} {cur : ℤ}
    {codes : List ℤ} (h : follow table dir last n cur = some codes) :
    (cur :: codes).IsChain (Linked table dir) ∧ codes.getLast? = some last ∧ codes.length ≤ n := by
  induction n generalizing cur codes with
  | zero => cases h
  | succ n ih =>
    unfold follow at h
    cases hlink : linkOf table dir cur with
    | none =>
      rw [hlink] at h
      cases h
    | some next =>
      rw [hlink] at h
      dsimp only at h
      split_ifs at h with hlast
      · obtain rfl := Option.some.inj h
        refine ⟨List.isChain_cons_cons.mpr ⟨hlink, List.IsChain.singleton next⟩, ?_, by simp⟩
        rw [List.getLast?_singleton, hlast]
      · obtain ⟨rest, hrest, rfl⟩ := Option.map_eq_some_iff.mp h
        obtain ⟨hchain, hfinal, hlength⟩ := ih hrest
        refine ⟨List.isChain_cons_cons.mpr ⟨hlink, hchain⟩, ?_, by simpa using hlength⟩
        rw [List.getLast?_cons, hfinal, Option.getD_some]

/-- Linked codes within the limit are followed to their last one. -/
theorem isSome_follow {table : TmcLocationTable} {dir : LinkDirection} {last : ℤ} {n : ℕ}
    {cur : ℤ} {codes : List ℤ} (hchain : (cur :: codes).IsChain (Linked table dir))
    (hfinal : codes.getLast? = some last) (hlength : codes.length ≤ n) :
    (follow table dir last n cur).isSome = true := by
  induction n generalizing cur codes with
  | zero =>
    obtain rfl := List.length_eq_zero_iff.mp (Nat.le_zero.mp hlength)
    cases hfinal
  | succ n ih =>
    cases codes with
    | nil => cases hfinal
    | cons next rest =>
      obtain ⟨hlink, hrest⟩ := List.isChain_cons_cons.mp hchain
      have hlink : linkOf table dir cur = some next := hlink
      unfold follow
      rw [hlink]
      dsimp only
      split_ifs with hlast
      · rfl
      · rw [Option.isSome_map]
        cases rest with
        | nil => exact absurd (Option.some.inj hfinal) hlast
        | cons after rest =>
          exact ih hrest (by rwa [List.getLast?_cons_cons] at hfinal) (by simpa using hlength)

/-- A followed stretch walks from its first code to its last. -/
theorem walk_of_follow {table : TmcLocationTable} {dir : LinkDirection} {first last : ℤ}
    {codes : List ℤ} (h : follow table dir last chainLimit first = some codes) :
    Walk table dir first last (first :: codes) := by
  obtain ⟨hchain, hfinal, hlength⟩ := follow_spec h
  have hne : codes ≠ [] := by
    rintro rfl
    cases hfinal
  exact
    { head := rfl
      final := by rw [List.getLast?_cons, hfinal, Option.getD_some]
      linked := hchain
      long := Nat.succ_le_succ (List.length_pos_iff.mpr hne)
      limit := by simpa using hlength }

/-- A direction that connects two codes is followed. -/
theorem isSome_follow_of_walk {table : TmcLocationTable} {dir : LinkDirection} {first last : ℤ}
    {codes : List ℤ} (h : Walk table dir first last codes) :
    (follow table dir last chainLimit first).isSome = true := by
  obtain ⟨hhead, hfinal, hlinked, hlong, hlimit⟩ := h
  cases codes with
  | nil => cases hhead
  | cons code rest =>
    obtain rfl := Option.some.inj hhead
    cases rest with
    | nil => simp at hlong
    | cons next rest =>
      exact isSome_follow hlinked (by rwa [List.getLast?_cons_cons] at hfinal)
        (by simpa using hlimit)

/-- **A chain** walks from its first code to its last along the links of a direction. -/
theorem chain_spec {table : TmcLocationTable} {first last : ℤ} {codes : List ℤ}
    (h : chain table first last = some codes) : ∃ dir, Walk table dir first last codes := by
  obtain ⟨rest, hrest, rfl⟩ := Option.map_eq_some_iff.mp h
  rcases Option.or_eq_some_iff.mp hrest with hpos | ⟨-, hneg⟩
  · exact ⟨.pos, walk_of_follow hpos⟩
  · exact ⟨.neg, walk_of_follow hneg⟩

/-- There is no chain exactly between codes that are not connected within the limit. -/
theorem chain_eq_none_iff {table : TmcLocationTable} {first last : ℤ} :
    chain table first last = none ↔ ¬Connected table first last := by
  unfold chain
  rw [Option.map_eq_none_iff, Option.or_eq_none_iff]
  constructor
  · rintro ⟨hpos, hneg⟩ ⟨dir, codes, hwalk⟩
    have hsome := isSome_follow_of_walk hwalk
    cases dir with
    | pos => simp [hpos] at hsome
    | neg => simp [hneg] at hsome
  · intro h
    have hnone : ∀ dir, follow table dir last chainLimit first = none := fun dir => by
      by_contra hsome
      obtain ⟨codes, hcodes⟩ := Option.ne_none_iff_exists'.mp hsome
      exact h ⟨dir, first :: codes, walk_of_follow hcodes⟩
    exact ⟨hnone .pos, hnone .neg⟩

/-- Every code of a walk that ends at a code of the table is one of the table. -/
theorem Walk.coded {table : TmcLocationTable} {dir : LinkDirection} {first last : ℤ}
    {codes : List ℤ} (h : Walk table dir first last codes)
    (hlast : (table.points.get last).isSome = true) :
    ∀ code ∈ codes, (table.points.get code).isSome = true := by
  obtain ⟨-, hfinal, hlinked, -, -⟩ := h
  induction codes with
  | nil => simp
  | cons code rest ih =>
    cases rest with
    | nil =>
      obtain rfl := Option.some.inj hfinal
      simpa using hlast
    | cons next rest =>
      obtain ⟨hlink, hrest⟩ := List.isChain_cons_cons.mp hlinked
      have hcode : (table.points.get code).isSome = true := by
        obtain ⟨p, hp, -⟩ := Option.bind_eq_some_iff.mp hlink
        rw [hp]
        rfl
      exact List.forall_mem_cons.mpr
        ⟨hcode, ih (by rwa [List.getLast?_cons_cons] at hfinal) hrest⟩

/-- The other end of a stretch is the secondary code, one of the table and not the primary one. -/
theorem otherEnd_eq_some_iff {table : TmcLocationTable} {ref : AlertCReference}
    {primary secondary : ℤ} :
    otherEnd table ref primary = some secondary ↔ statedCode ref.secondary = some secondary ∧
      (table.points.get secondary).isSome = true ∧ secondary ≠ primary := by
  rw [otherEnd, Option.filter_eq_some_iff, Bool.and_eq_true, decide_eq_true_eq]

/-- The codes of a geometry are right. -/
theorem drawn_vertexCodes {table : TmcLocationTable} {ref : AlertCReference} {primary : ℤ}
    (hprimary : (table.points.get primary).isSome = true) :
    Drawn table ref primary (vertexCodes table ref primary) := by
  unfold vertexCodes
  cases hother : otherEnd table ref primary with
  | none => exact ⟨by simpa using hprimary, Or.inl rfl⟩
  | some secondary =>
    obtain ⟨hstated, hsecondary, -⟩ := Iff.mp otherEnd_eq_some_iff hother
    dsimp only
    cases hchain : chain table secondary primary with
    | none =>
      rw [Option.getD_none]
      refine ⟨by simpa using ⟨hsecondary, hprimary⟩, Or.inr ⟨secondary, hstated, Or.inr ?_⟩⟩
      exact ⟨rfl, Iff.mp chain_eq_none_iff hchain⟩
    | some codes =>
      obtain ⟨dir, hwalk⟩ := chain_spec hchain
      exact ⟨hwalk.coded hprimary, Or.inr ⟨secondary, hstated, Or.inl ⟨dir, hwalk⟩⟩⟩

/-! ## What resolves -/

/-- Codes of the table have a position each. -/
theorem length_positions {table : TmcLocationTable} {codes : List ℤ}
    (h : ∀ code ∈ codes, (table.points.get code).isSome = true) :
    (codes.filterMap (positionOf table)).length = codes.length := by
  induction codes with
  | nil => rfl
  | cons code rest ih =>
    obtain ⟨hcode, hrest⟩ := List.forall_mem_cons.mp h
    obtain ⟨p, hp⟩ := Option.isSome_iff_exists.mp hcode
    have hposition : positionOf table code = some (p.lon, p.lat) := by rw [positionOf, hp]; rfl
    rw [List.filterMap_cons_some hposition, List.length_cons, List.length_cons, ih hrest]

/-- Two positions or more are a line. -/
theorem geometryOf_of_two_le {table : TmcLocationTable} {codes : List ℤ}
    (h : 2 ≤ (codes.filterMap (positionOf table)).length) :
    geometryOf table codes = .lineString (codes.filterMap (positionOf table)) := by
  unfold geometryOf
  split
  · rename_i hone
    rw [hone] at h
    simp at h
  · rfl

/-- The coordinates of a stretch are the positions of its codes, two at least. -/
theorem stretchCoordinates_spec {table : TmcLocationTable} {secondaryCode primaryCode : ℤ}
    {secondary primary : TmcPoint} (hsecondary : table.points.get secondaryCode = some secondary)
    (hprimary : table.points.get primaryCode = some primary) :
    stretchCoordinates table secondaryCode primaryCode secondary primary =
        ((chain table secondaryCode primaryCode).getD [secondaryCode, primaryCode]).filterMap
          (positionOf table) ∧
      2 ≤ (stretchCoordinates table secondaryCode primaryCode secondary primary).length := by
  unfold stretchCoordinates
  cases hchain : chain table secondaryCode primaryCode with
  | none => simp [positionOf, hsecondary, hprimary]
  | some codes =>
    obtain ⟨dir, hwalk⟩ := chain_spec hchain
    have hcoded := hwalk.coded (by rw [hprimary]; rfl)
    refine ⟨rfl, ?_⟩
    show 2 ≤ (codes.filterMap (positionOf table)).length
    rw [length_positions hcoded]
    exact hwalk.long

/-- The geometry of a reference is the one of its codes. -/
theorem resolvedGeometry_eq {table : TmcLocationTable} {ref : AlertCReference} {primaryCode : ℤ}
    {primary : TmcPoint} (hprimary : table.points.get primaryCode = some primary) :
    resolvedGeometry table ref primaryCode primary =
      geometryOf table (vertexCodes table ref primaryCode) := by
  have hposition : positionOf table primaryCode = some (primary.lon, primary.lat) := by
    rw [positionOf, hprimary]
    rfl
  have hpoint : geometryOf table [primaryCode] = .point (primary.lon, primary.lat) := by
    rw [geometryOf, List.filterMap_cons_some hposition, List.filterMap_nil]
  have hnone : otherEnd table ref primaryCode = none →
      geometryOf table (vertexCodes table ref primaryCode) =
        .point (primary.lon, primary.lat) := fun hother => by
    rw [vertexCodes, hother, hpoint]
  unfold resolvedGeometry
  cases hstated : statedCode ref.secondary with
  | none => exact (hnone (by rw [otherEnd, hstated, Option.filter_none])).symm
  | some secondaryCode =>
    rw [Option.bind_some]
    cases hsecondary : table.points.get secondaryCode with
    | none => exact (hnone (by rw [otherEnd, hstated]; simp [hsecondary])).symm
    | some secondary =>
      dsimp only
      obtain ⟨hcoordinates, htwo⟩ := stretchCoordinates_spec hsecondary hprimary
      split_ifs with hsame hshort
      · exact (hnone (by rw [otherEnd, hstated]; simp [hsame])).symm
      · exact absurd hshort (not_lt.mpr htwo)
      · have hother : otherEnd table ref primaryCode = some secondaryCode :=
          Iff.mpr otherEnd_eq_some_iff ⟨hstated, by rw [hsecondary]; rfl, hsame⟩
        rw [hcoordinates] at htwo ⊢
        rw [vertexCodes, hother]
        exact (geometryOf_of_two_le htwo).symm

/-- A reference that another edition is stated of is refused unless the named points vouch. -/
theorem not_refused_iff {T : TmcText} {table : TmcLocationTable} {ref : AlertCReference}
    {primary : ℤ} {same : Bool} :
    (!same && ((knownPoints (namedPoints table ref primary)).isEmpty ||
        !(knownPoints (namedPoints table ref primary)).all fun p =>
          sameRoad T p.road ref.road)) = false ↔
      same = true ∨ Vouched T table ref primary := by
  rw [Bool.and_eq_false_iff, Bool.or_eq_false_iff, Bool.not_eq_false', Bool.not_eq_false',
    List.all_eq_true]
  refine or_congr_right ⟨fun h => ⟨fun hnil => ?_, h.2⟩, fun h => ⟨?_, h.road⟩⟩
  · rw [hnil] at h
    exact absurd h.1 (by simp)
  · exact List.isEmpty_eq_false_iff.mpr h.known

/-- **What resolves**: the references that are accepted, to the geometry of their codes. -/
theorem resolveAlertC_eq_ok_iff {T : TmcText} {ref : AlertCReference}
    {tables : List TmcLocationTable} {r : TmcResolved} :
    resolveAlertC T ref tables = .ok r ↔ ∃ table primary version,
      Accepted T ref tables table primary version ∧
        r = ⟨geometryOf table (vertexCodes table ref primary), table,
          !sameVersion T version table.version⟩ := by
  unfold resolveAlertC
  constructor
  · intro h
    cases hprimary : statedCode ref.primary with
    | none => simp [hprimary] at h
    | some primary =>
      cases htable : tables.find? fun t => matchesTable T t ref with
      | none => simp [hprimary, htable] at h
      | some table =>
        cases hversion : stated ref.version with
        | none => simp [hprimary, htable, hversion] at h
        | some version =>
          simp only [hprimary, htable, hversion] at h
          split_ifs at h with hrefused
          have haccepted := Iff.mp not_refused_iff (Bool.eq_false_iff.mpr hrefused)
          cases hpoint : table.points.get primary with
          | none => simp [hpoint] at h
          | some point =>
            rw [hpoint] at h
            refine ⟨table, primary, version,
              ⟨hprimary, htable, hversion, by rw [hpoint]; rfl, haccepted⟩, ?_⟩
            rw [← resolvedGeometry_eq hpoint]
            exact (Except.ok.inj h).symm
  · rintro ⟨table, primary, version, ⟨hprimary, htable, hversion, hcoded, hedition⟩, rfl⟩
    obtain ⟨point, hpoint⟩ := Option.isSome_iff_exists.mp hcoded
    have hrefused := Iff.mpr not_refused_iff hedition
    simp only [hprimary, htable, hversion]
    rw [if_neg (Bool.eq_false_iff.mp hrefused), hpoint, ← resolvedGeometry_eq hpoint]

/-! ## What is left unchecked -/

section Verified

variable (T : TmcText)

/-- The codes strictly between the ends of a geometry. -/
def betweenCodes (table : TmcLocationTable) (ref : AlertCReference) (primary : ℤ) : List ℤ :=
  (vertexCodes table ref primary).tail.dropLast

/-- The geometry of a reference is right, and to be trusted: the reference names the edition of the
table, or every code of the geometry lies on the road of the record. -/
structure VerifiedAs (ref : AlertCReference) (r : TmcResolved) (primary : ℤ) : Prop where
  named : statedCode ref.primary = some primary
  geometry : r.geometry = geometryOf r.table (vertexCodes r.table ref primary)
  drawn : Drawn r.table ref primary (vertexCodes r.table ref primary)
  edition : NamesEdition T ref r.table ∨
    ∀ code ∈ vertexCodes r.table ref primary, OnRoad T r.table ref.road code

/-- What a reference resolves to is right, and to be trusted. -/
def Verified (ref : AlertCReference) (tables : List TmcLocationTable) : Prop :=
  ∀ r, resolveAlertC T ref tables = .ok r → ∃ primary, VerifiedAs T ref r primary

variable {T}

/-- A member of a list with a first and a last one is one of these, or between them. -/
theorem eq_or_mem_between {α : Type} {first last x : α} {xs : List α} (hhead : xs.head? = some first)
    (hfinal : xs.getLast? = some last) (hx : x ∈ xs) :
    x = first ∨ x = last ∨ x ∈ xs.tail.dropLast := by
  cases xs with
  | nil => cases hhead
  | cons y ys =>
    obtain rfl := Option.some.inj hhead
    rcases List.mem_cons.mp hx with rfl | hys
    · exact Or.inl rfl
    · cases ys with
      | nil => cases hys
      | cons z zs =>
        rw [List.getLast?_cons_cons] at hfinal
        rw [← List.dropLast_append_getLast? last hfinal, List.mem_append, List.mem_singleton] at hys
        exact Or.inr hys.symm

/-- A geometry ends at the primary code, and begins at its other end where there is one. -/
theorem vertexCodes_ends {table : TmcLocationTable} {ref : AlertCReference} {primary : ℤ} :
    (vertexCodes table ref primary).getLast? = some primary ∧
      (vertexCodes table ref primary).head? =
        some ((otherEnd table ref primary).getD primary) := by
  unfold vertexCodes
  cases hother : otherEnd table ref primary with
  | none => exact ⟨rfl, rfl⟩
  | some secondary =>
    dsimp only
    cases hchain : chain table secondary primary with
    | none => exact ⟨rfl, rfl⟩
    | some codes =>
      obtain ⟨dir, hwalk⟩ := chain_spec hchain
      exact ⟨hwalk.final, hwalk.head⟩

/-- The codes of a geometry are its ends and the codes between them. -/
theorem mem_vertexCodes_iff {table : TmcLocationTable} {ref : AlertCReference}
    {primary code : ℤ} :
    code ∈ vertexCodes table ref primary ↔ code = primary ∨
      otherEnd table ref primary = some code ∨ code ∈ betweenCodes table ref primary := by
  obtain ⟨hfinal, hhead⟩ := @vertexCodes_ends table ref primary
  constructor
  · intro h
    rcases eq_or_mem_between hhead hfinal h with hfirst | hlast | hbetween
    · cases hother : otherEnd table ref primary with
      | none =>
        rw [hother] at hfirst
        exact Or.inl hfirst
      | some secondary =>
        rw [hother] at hfirst
        exact Or.inr (Or.inl (congrArg some hfirst.symm))
    · exact Or.inl hlast
    · exact Or.inr (Or.inr hbetween)
  · rintro (rfl | hother | hbetween)
    · exact List.mem_of_getLast? hfinal
    · rw [hother] at hhead
      exact List.mem_of_head? hhead
    · exact List.mem_of_mem_tail (List.mem_of_mem_dropLast hbetween)

/-- A named point of the table is on the road of a record for which the named points vouch. -/
theorem Vouched.onRoad {table : TmcLocationTable} {ref : AlertCReference} {primary code : ℤ}
    (h : Vouched T table ref primary)
    (hcode : code = primary ∨ otherEnd table ref primary = some code) :
    OnRoad T table ref.road code := by
  intro p hp hroad
  refine h.road p (List.mem_filter.mpr ⟨List.mem_filterMap.mpr ⟨some p, ?_, rfl⟩,
    Option.isSome_iff_ne_none.mpr hroad⟩)
  rcases hcode with rfl | hother
  · rw [namedPoints, hp]
    exact List.mem_cons_self
  · rw [namedPoints, (Iff.mp otherEnd_eq_some_iff hother).1, Option.bind_some, hp]
    exact List.mem_cons_of_mem _ List.mem_cons_self

/-- What is to be trusted of an accepted reference. -/
theorem Verified.edition {ref : AlertCReference} {tables : List TmcLocationTable}
    (h : Verified T ref tables) {table : TmcLocationTable} {primary : ℤ} {version : String}
    (haccepted : Accepted T ref tables table primary version) :
    NamesEdition T ref table ∨
      ∀ code ∈ vertexCodes table ref primary, OnRoad T table ref.road code := by
  obtain ⟨primary', hverified⟩ := h _ (Iff.mpr resolveAlertC_eq_ok_iff ⟨_, _, _, haccepted, rfl⟩)
  obtain rfl : primary = primary' := Option.some.inj (haccepted.named.symm.trans hverified.named)
  exact hverified.edition

/-- **What is left unchecked**: a geometry is to be trusted exactly when the reference names the
edition of the table, or else the codes between the named ones lie on the road of the record, and
the named ones do too if the editions compare as one without being one. -/
theorem verified_iff (T : TmcText) (ref : AlertCReference) (tables : List TmcLocationTable) :
    Verified T ref tables ↔ ∀ table primary version,
      Accepted T ref tables table primary version →
        NamesEdition T ref table ∨
          (∀ code ∈ betweenCodes table ref primary, OnRoad T table ref.road code) ∧
          (sameVersion T version table.version = true → OnRoad T table ref.road primary ∧
            ∀ secondary, otherEnd table ref primary = some secondary →
              OnRoad T table ref.road secondary) := by
  constructor
  · intro h table primary version haccepted
    refine (h.edition haccepted).imp_right fun hroad => ⟨fun code hcode => ?_, fun _ => ⟨?_, ?_⟩⟩
    · exact hroad code (Iff.mpr mem_vertexCodes_iff (Or.inr (Or.inr hcode)))
    · exact hroad primary (Iff.mpr mem_vertexCodes_iff (Or.inl rfl))
    · exact fun secondary hother =>
        hroad secondary (Iff.mpr mem_vertexCodes_iff (Or.inr (Or.inl hother)))
  · intro h r hr
    obtain ⟨table, primary, version, haccepted, rfl⟩ := Iff.mp resolveAlertC_eq_ok_iff hr
    refine ⟨primary, haccepted.named, rfl, drawn_vertexCodes haccepted.coded, ?_⟩
    refine (h table primary version haccepted).imp_right fun ⟨hbetween, hnamed⟩ code hcode => ?_
    have hends : code = primary ∨ otherEnd table ref primary = some code →
        OnRoad T table ref.road code := fun hend => by
      rcases haccepted.edition with hsame | hvouched
      · rcases hend with rfl | hother
        · exact (hnamed hsame).1
        · exact (hnamed hsame).2 code hother
      · exact hvouched.onRoad hend
    rcases Iff.mp mem_vertexCodes_iff hcode with hprimary | hother | hcode
    · exact hends (Or.inl hprimary)
    · exact hends (Or.inr hother)
    · exact hbetween code hcode

/-! ## Two references that are trusted unverified -/

/-- Upper case by the standard library, of texts without numbers from `10 ^ 21` on. -/
def asciiText : TmcText where
  toUpperCase := String.toUpper
  largeNumber := fun _ => ""

/-- Three codes of a road, of which another edition has the second on another road. -/
def motorwayTable : TmcLocationTable where
  cid := 58
  tabcd := 1
  version := "22.0"
  ccd := some "D"
  points := ⟨[(1, { lon := 10, lat := 50, pos := some 2, road := some "A7" }),
    (2, { lon := 11, lat := 50, pos := some 3, neg := some 1, road := some "A1" }),
    (3, { lon := 12, lat := 50, neg := some 2, road := some "A7" })], by decide⟩

/-- A stretch of the motorway by the codes of another edition. -/
def motorwayStretch : AlertCReference where
  country := some "D"
  version := some "21.0"
  primary := some 3
  secondary := some 1
  road := some "A7"

/-- A code whose stated edition only begins with the number of the table's. -/
def draftCode : AlertCReference where
  country := some "D"
  version := some "22.0-draft"
  primary := some 2
  road := some "A7"

/-- **Trusted unverified**: a stretch leads over a code of another road, and a code on another road
counts since the text of its edition begins as the table's. -/
theorem not_verified :
    ¬Verified asciiText motorwayStretch [motorwayTable] ∧
      ¬Verified asciiText draftCode [motorwayTable] := by
  have hoff : ¬OnRoad asciiText motorwayTable (some "A7") 2 := fun h =>
    absurd (h { lon := 11, lat := 50, pos := some 3, neg := some 1, road := some "A1" } rfl
      (by decide)) (by decide +kernel)
  have hedition : ∀ version, (version = "21.0" ∨ version = "22.0-draft") →
      ¬SameEdition asciiText version motorwayTable.version := by
    rintro version (rfl | rfl)
    · decide +kernel
    · decide +kernel
  constructor
  · intro h
    have haccepted : Accepted asciiText motorwayStretch [motorwayTable] motorwayTable 3 "21.0" :=
      { named := rfl
        chosen := List.find?_cons_of_pos (by decide +kernel)
        dated := rfl
        coded := rfl
        edition := Or.inr ⟨by decide +kernel, by decide +kernel⟩ }
    rcases h.edition haccepted with ⟨version, hversion, hsame⟩ | hroad
    · exact hedition version (Or.inl (Option.some.inj hversion).symm) hsame
    · exact hoff (hroad 2 (by decide +kernel))
  · intro h
    have haccepted : Accepted asciiText draftCode [motorwayTable] motorwayTable 2 "22.0-draft" :=
      { named := rfl
        chosen := List.find?_cons_of_pos (by decide +kernel)
        dated := rfl
        coded := rfl
        edition := Or.inl (by decide +kernel) }
    rcases h.edition haccepted with ⟨version, hversion, hsame⟩ | hroad
    · exact hedition version (Or.inr (Option.some.inj hversion).symm) hsame
    · exact hoff (hroad 2 (by decide +kernel))

end Verified

end OpenConditions.Roads

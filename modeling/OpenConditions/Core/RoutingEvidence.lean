import Mathlib.Data.List.Dedup
import Mathlib.Data.List.TakeWhile
import OpenConditions.Core.Identity
import OpenConditions.Lib.ExtRat
import OpenConditions.Schedules.Recurrence

set_option relaxedAutoImplicit false
set_option autoImplicit false

/-!
# Routing evidence

What the evidence behind a routing effect must say before a router applies it
(`packages/core/src/routing-evidence.ts`): who says it and of which revision, bound to which spans,
until when and with which permissions.  The check lists what is missing or wrong; the instant it is
made at counts only when it is the instant of a valid date.

## Main definitions

* `RoutingEvidence` — the fields that the check reads.
* `finiteInstant` — the instant of a text with a time and a zone.
* `routingEvidenceReasons` — what is missing or wrong.
* `NamesInstant`, `RoutingEvidence.Sound` — what texts of instants, and evidence, are to be.

## Main results

* `finiteInstant_eq_some_iff` — the texts that are read as instants.
* `routingEvidenceReasons_eq_nil_iff` — nothing is missing or wrong exactly when the evidence is
  sound and, at the instant of a valid date, neither stale nor expired.
* `stale_at_invalid_date` — at an invalid date, stale evidence passes.
-/

namespace OpenConditions.Core

open Schedules (trimmed isZoneSuffix)

/-! ## Evidence -/

/-- The direction in which a span is driven. -/
inductive SegmentDirection where
  | forward
  | reverse
  deriving DecidableEq, Repr

/-- The directions that evidence is about. -/
inductive DirectionMode where
  | forward
  | reverse
  | both
  | unknown
  deriving DecidableEq, Repr

/-- How evidence is bound to the road graph. -/
inductive RoutingBindingStatus where
  | exact
  | likely
  | ambiguous
  | unresolved
  | noCoverage
  | unattempted
  | obsolete
  | invalid
  | notApplicable
  deriving DecidableEq, Repr

/-- The text of a binding status. -/
def RoutingBindingStatus.text : RoutingBindingStatus → String
  | .exact => "exact"
  | .likely => "likely"
  | .ambiguous => "ambiguous"
  | .unresolved => "unresolved"
  | .noCoverage => "no_coverage"
  | .unattempted => "unattempted"
  | .obsolete => "obsolete"
  | .invalid => "invalid"
  | .notApplicable => "not_applicable"

/-- A licence grant. -/
inductive GrantState where
  | yes
  | no
  | unknown
  deriving DecidableEq, Repr

/-- The text of a grant. -/
def GrantState.text : GrantState → String
  | .yes => "yes"
  | .no => "no"
  | .unknown => "unknown"

/-- What a source permits. -/
structure RoutingRights where
  sourceRedistribution : GrantState
  derivedRedistribution : GrantState
  commercialUse : GrantState
  retention : GrantState
  reviewedAt : Option String
  deriving DecidableEq, Repr

/-- Which vehicles an effect is about. -/
inductive ApplicabilityKind where
  | all
  | classes
  | unknown
  deriving DecidableEq, Repr

/-- The vehicles an effect is about; `V` are the selectors of vehicles. -/
structure RoutingApplicability (V : Type) where
  kind : ApplicabilityKind
  included : Option (List V) := none

/-- A span of a segment of the graph. -/
structure RoutingEvidenceSegment where
  segmentId : String
  direction : SegmentDirection
  fromFraction : ExtRat
  toFraction : ExtRat
  deriving DecidableEq, Repr

/-- Evidence for routing: an identity is none when its field holds no text. -/
structure RoutingEvidence (V : Type) where
  schemaVersion : ExtRat
  recordId : Option String
  effectId : Option String
  recordRevision : ExtRat
  bindingRevision : ExtRat
  effectKind : Option String
  graphGeneration : Option String
  resolverVersion : Option String
  sourceId : Option String
  sourceLicense : Option String
  sourceCheckedAt : String
  freshUntil : String
  expiresAt : Option String
  validFrom : Option String
  validTo : Option String
  nextTransitionAt : Option String
  directionMode : DirectionMode
  applicability : RoutingApplicability V
  rights : RoutingRights
  segments : List RoutingEvidenceSegment
  bindingStatus : RoutingBindingStatus
  reasonCodes : List String
  evaluatedAt : String

/-! ## Instants -/

/-- Either case of the letter before a time. -/
def isTimeMark (c : Char) : Bool := decide (c = 'T' ∨ c = 't')

/-- A character between the time's letter and the zone. -/
def isTimeChar (c : Char) : Bool := !isTimeMark c && !isLineTerminator c

/-- A text whose last line has the letter before a time. -/
def endsWithTime (cs : List Char) : Bool :=
  match cs.reverse.dropWhile isTimeChar with
  | [] => false
  | c :: _ => isTimeMark c

/-- `T[^T\r\n\u2028\u2029]*(?:Z|[+-]\d{2}:?\d{2})$` in either case — a time and a zone at the end of
a text: the zone takes one, five or six characters. -/
def hasTimeAndZone (cs : List Char) : Bool :=
  [1, 5, 6].any fun n =>
    decide (n ≤ cs.length) && isZoneSuffix (cs.drop (cs.length - n)) &&
      endsWithTime (cs.take (cs.length - n))

/-- A text of white space only. -/
def isBlank (text : String) : Bool := decide (trimmed text.toList = [])

/-- The instant of a text that has a time and a zone; `parse` reads dates, and gives none for what
is not one. -/
def finiteInstant (parse : String → Option ℤ) (value : Option String) : Option ℤ :=
  match value with
  | none => none
  | some text =>
    if isBlank text then none
    else if hasTimeAndZone (trimmed text.toList) then parse text
    else none

/-! ## The check -/

/-- A reason, when it is one. -/
def reason (wrong : Bool) (text : String) : List String := if wrong then [text] else []

/-- Whether two numbers are equal, which nothing is to what is not a number. -/
def sameNumber (a b : ExtRat) : Bool := ExtRat.le a b && ExtRat.le b a

variable {V : Type}

/-- The fields that identify evidence, each with its name. -/
def RoutingEvidence.identities (e : RoutingEvidence V) : List (String × Option String) :=
  [("record_id", e.recordId), ("effect_id", e.effectId), ("effect_kind", e.effectKind),
    ("graph_generation", e.graphGeneration), ("resolver_version", e.resolverVersion),
    ("source_id", e.sourceId), ("source_license", e.sourceLicense)]

/-- The permissions that routing needs, each with its name. -/
def RoutingRights.grants (rights : RoutingRights) : List (String × GrantState) :=
  [("source_redistribution", rights.sourceRedistribution),
    ("derived_redistribution", rights.derivedRedistribution),
    ("commercial_use", rights.commercialUse), ("retention", rights.retention)]

/-- The revisions of evidence, each with its name. -/
def RoutingEvidence.revisions (e : RoutingEvidence V) : List (String × ExtRat) :=
  [("record_revision", e.recordRevision), ("binding_revision", e.bindingRevision)]

/-- The instants that evidence may have, each with its name. -/
def RoutingEvidence.transitions (e : RoutingEvidence V) : List (String × Option String) :=
  [("valid_from", e.validFrom), ("valid_to", e.validTo), ("next_transition", e.nextTransitionAt)]

/-- Whether an instant is at or after a deadline; never when it is that of no valid date. -/
def reached (now : Option ℤ) (deadline : ℤ) : Bool := now.any fun t => decide (deadline ≤ t)

/-- What is wrong with a deadline, at the instant of a date: it is none, or it has been reached. -/
def deadlineReason (parse : String → Option ℤ) (now : Option ℤ) (text invalid late : String) :
    List String :=
  match finiteInstant parse (some text) with
  | none => [invalid]
  | some deadline => reason (reached now deadline) late

/-- Whether a span is none. -/
def RoutingEvidenceSegment.isInvalid (span : RoutingEvidenceSegment) : Bool :=
  decide (span.segmentId = "") || !span.fromFraction.isFinite || !span.toFraction.isFinite ||
    ExtRat.lt span.fromFraction (.fin 0) || ExtRat.lt (.fin 1) span.toFraction ||
    ExtRat.lt span.toFraction span.fromFraction

/-- Whether the directions of the spans are not the ones of a mode. -/
def directionMismatch (mode : DirectionMode) (directions : List SegmentDirection) : Bool :=
  match mode with
  | .forward => decide (directions.dedup.length ≠ 1 ∨ .forward ∉ directions)
  | .reverse => decide (directions.dedup.length ≠ 1 ∨ .reverse ∉ directions)
  | .both => decide (.forward ∉ directions ∨ .reverse ∉ directions)
  | .unknown => false

/-- What is wrong with the spans. -/
def segmentReasons (e : RoutingEvidence V) : List String :=
  (if e.segments = [] then ["segments_unresolved"]
    else reason (e.segments.any RoutingEvidenceSegment.isInvalid) "invalid_segment_span") ++
  reason (directionMismatch e.directionMode (e.segments.map RoutingEvidenceSegment.direction))
    "segment_direction_mismatch"

/-- What is missing or wrong of evidence, at the instant of a date: none when it is invalid. -/
def routingEvidenceReasons (parse : String → Option ℤ) (e : RoutingEvidence V)
    (now : Option ℤ) : List String :=
  reason (!sameNumber e.schemaVersion (.fin 2)) "schema_version_unsupported" ++
  e.identities.flatMap (fun field => reason (field.2.all isBlank) (field.1 ++ "_missing")) ++
  e.revisions.flatMap (fun field =>
    reason (!field.2.isSafeInteger || ExtRat.lt field.2 (.fin 1)) (field.1 ++ "_missing")) ++
  reason (!sameNumber e.recordRevision e.bindingRevision) "binding_revision_mismatch" ++
  reason (decide (e.bindingStatus ≠ .exact ∧ e.bindingStatus ≠ .likely))
    ("binding_" ++ e.bindingStatus.text) ++
  reason (finiteInstant parse (some e.sourceCheckedAt)).isNone "source_check_invalid" ++
  reason (finiteInstant parse (some e.evaluatedAt)).isNone "evaluated_at_invalid" ++
  deadlineReason parse now e.freshUntil "freshness_deadline_invalid" "source_stale" ++
  e.expiresAt.elim []
    (fun text => deadlineReason parse now text "expires_at_invalid" "record_expired") ++
  e.transitions.flatMap (fun field =>
    reason (field.2.isSome && (finiteInstant parse field.2).isNone) (field.1 ++ "_invalid")) ++
  e.rights.grants.flatMap (fun grant =>
    reason (decide (grant.2 ≠ .yes)) ("rights_" ++ grant.1 ++ "_" ++ grant.2.text)) ++
  reason (e.rights.reviewedAt.isSome && (finiteInstant parse e.rights.reviewedAt).isNone)
    "rights_reviewed_at_invalid" ++
  reason (decide (e.applicability.kind = .unknown)) "applicability_unknown" ++
  reason (decide (e.applicability.kind = .classes) && e.applicability.included.all List.isEmpty)
    "applicability_empty" ++
  reason (decide (e.directionMode = .unknown)) "direction_unknown" ++
  segmentReasons e ++
  reason (!e.reasonCodes.isEmpty) "evidence_reported_unapplied"

/-! ## What evidence is to be -/

/-- A text names an instant: without the white space around it, it ends in a time and a zone, and
it is read as a date. -/
structure NamesInstant (parse : String → Option ℤ) (text : String) : Prop where
  written : ∃ before mark time zone, trimmed text.toList = before ++ mark :: time ++ zone ∧
    isTimeMark mark = true ∧ (∀ c ∈ time, isTimeChar c = true) ∧ zone ≠ [] ∧
    isZoneSuffix zone = true
  read : ∃ t, parse text = some t

/-- The instants that evidence states. -/
def RoutingEvidence.instants (e : RoutingEvidence V) : List String :=
  [e.sourceCheckedAt, e.evaluatedAt, e.freshUntil] ++ e.expiresAt.toList ++ e.validFrom.toList ++
    e.validTo.toList ++ e.nextTransitionAt.toList ++ e.rights.reviewedAt.toList

/-- The directions of a mode. -/
def DirectionMode.names : DirectionMode → SegmentDirection → Bool
  | .forward, d => decide (d = .forward)
  | .reverse, d => decide (d = .reverse)
  | .both, _ => true
  | .unknown, _ => false

/-- A span lies ordered within a segment that has a name. -/
def RoutingEvidenceSegment.Within (span : RoutingEvidenceSegment) : Prop :=
  span.segmentId ≠ "" ∧ ∃ a b : ℚ, span.fromFraction = .fin a ∧ span.toFraction = .fin b ∧
    0 ≤ a ∧ a ≤ b ∧ b ≤ 1

/-- Evidence that is complete, permitted and bound. -/
structure RoutingEvidence.Sound (parse : String → Option ℤ) (e : RoutingEvidence V) : Prop where
  schema : e.schemaVersion = .fin 2
  identity : ∀ field ∈ e.identities, ∃ text, field.2 = some text ∧ isBlank text = false
  revision : ∃ n : ℕ, 1 ≤ n ∧ n ≤ ExtRat.maxSafeInteger ∧
    e.recordRevision = .fin n ∧ e.bindingRevision = .fin n
  binding : e.bindingStatus = .exact ∨ e.bindingStatus = .likely
  instants : ∀ text ∈ e.instants, NamesInstant parse text
  permitted : ∀ grant ∈ e.rights.grants, grant.2 = .yes
  applicable : e.applicability.kind ≠ .unknown
  selected : e.applicability.kind = .classes → ∃ v vs, e.applicability.included = some (v :: vs)
  directed : e.directionMode ≠ .unknown
  bound : e.segments ≠ []
  spans : ∀ span ∈ e.segments, span.Within
  directions : ∀ d, d ∈ e.segments.map RoutingEvidenceSegment.direction ↔
    e.directionMode.names d = true
  unreported : e.reasonCodes = []

/-- Evidence is neither stale nor expired at an instant. -/
structure RoutingEvidence.InTime (parse : String → Option ℤ) (e : RoutingEvidence V) (t : ℤ) :
    Prop where
  fresh : ∀ deadline, parse e.freshUntil = some deadline → t < deadline
  unexpired : ∀ text deadline, e.expiresAt = some text → parse text = some deadline → t < deadline

/-! ## Texts of instants -/

/-- A zone takes one, five or six characters. -/
theorem length_of_isZoneSuffix {zone : List Char} (h : isZoneSuffix zone = true)
    (hne : zone ≠ []) : zone.length ∈ [1, 5, 6] := by
  unfold isZoneSuffix at h
  split at h
  · exact absurd rfl hne
  · simp
  · simp
  · simp
  · cases h

/-- The text before a zone ends with a time exactly when only characters of a time follow a
letter before one. -/
theorem endsWithTime_iff {cs : List Char} :
    endsWithTime cs = true ↔ ∃ before mark time, cs = before ++ mark :: time ∧
      isTimeMark mark = true ∧ ∀ c ∈ time, isTimeChar c = true := by
  unfold endsWithTime
  constructor
  · intro h
    cases hdrop : cs.reverse.dropWhile isTimeChar with
    | nil =>
      rw [hdrop] at h
      cases h
    | cons mark rest =>
      rw [hdrop] at h
      refine ⟨rest.reverse, mark, (cs.reverse.takeWhile isTimeChar).reverse, ?_, h, ?_⟩
      · have hsplit := List.takeWhile_append_dropWhile (p := isTimeChar) (l := cs.reverse)
        rw [hdrop] at hsplit
        have hcs := congrArg List.reverse hsplit
        rw [List.reverse_append, List.reverse_cons, List.reverse_reverse, List.append_assoc] at hcs
        exact hcs.symm
      · intro c hc
        exact List.mem_takeWhile_imp (List.mem_reverse.mp hc)
  · rintro ⟨before, mark, time, rfl, hmark, htime⟩
    have hnot : isTimeChar mark = false := by simp [isTimeChar, hmark]
    have hdrop : (before ++ mark :: time).reverse.dropWhile isTimeChar = mark :: before.reverse := by
      rw [List.reverse_append, List.reverse_cons, List.append_assoc,
        List.dropWhile_append_of_pos fun c hc => htime c (List.mem_reverse.mp hc)]
      exact List.dropWhile_cons_of_neg (by simp [hnot])
    rw [hdrop]
    exact hmark

/-- A text has a time and a zone exactly when it ends in them. -/
theorem hasTimeAndZone_iff {cs : List Char} :
    hasTimeAndZone cs = true ↔ ∃ before mark time zone, cs = before ++ mark :: time ++ zone ∧
      isTimeMark mark = true ∧ (∀ c ∈ time, isTimeChar c = true) ∧ zone ≠ [] ∧
      isZoneSuffix zone = true := by
  unfold hasTimeAndZone
  rw [List.any_eq_true]
  constructor
  · rintro ⟨n, hn, h⟩
    simp only [Bool.and_eq_true, decide_eq_true_eq] at h
    obtain ⟨⟨hle, hzone⟩, htime⟩ := h
    obtain ⟨before, mark, time, htake, hmark, hchars⟩ := Iff.mp endsWithTime_iff htime
    refine ⟨before, mark, time, cs.drop (cs.length - n), ?_, hmark, hchars, ?_, hzone⟩
    · rw [← htake, List.take_append_drop]
    · have hpos : 0 < n := by
        simp only [List.mem_cons, List.not_mem_nil, or_false] at hn
        omega
      intro hnil
      have hlength := congrArg List.length hnil
      rw [List.length_drop, List.length_nil] at hlength
      omega
  · rintro ⟨before, mark, time, zone, rfl, hmark, hchars, hne, hzone⟩
    refine ⟨zone.length, length_of_isZoneSuffix hzone hne, ?_⟩
    have hlength : (before ++ mark :: time ++ zone).length - zone.length =
        (before ++ mark :: time).length := by
      rw [@List.length_append _ (before ++ mark :: time) zone]
      omega
    rw [hlength, List.drop_left, List.take_left]
    simp only [Bool.and_eq_true, decide_eq_true_eq]
    exact ⟨⟨by rw [List.length_append]; omega, hzone⟩,
      Iff.mpr endsWithTime_iff ⟨before, mark, time, rfl, hmark, hchars⟩⟩

/-- **Instants.** The texts that are read as instants are the ones that name them. -/
theorem finiteInstant_eq_some_iff {parse : String → Option ℤ} {text : String} {t : ℤ} :
    finiteInstant parse (some text) = some t ↔ NamesInstant parse text ∧ parse text = some t := by
  unfold finiteInstant
  dsimp only
  split_ifs with hblank hwritten
  · refine ⟨fun h => (by cases h), fun h => ?_⟩
    obtain ⟨before, mark, time, zone, hsplit, -⟩ := h.1.written
    rw [of_decide_eq_true hblank] at hsplit
    exact absurd hsplit (by simp)
  · exact ⟨fun h => ⟨⟨Iff.mp hasTimeAndZone_iff hwritten, t, h⟩, h⟩, fun h => h.2⟩
  · exact ⟨fun h => (by cases h), fun h => absurd (Iff.mpr hasTimeAndZone_iff h.1.written) hwritten⟩

/-- A text is read as some instant exactly when it names one. -/
theorem finiteInstant_isNone_iff {parse : String → Option ℤ} {text : String} :
    (finiteInstant parse (some text)).isNone = false ↔ NamesInstant parse text := by
  constructor
  · intro h
    obtain ⟨t, ht⟩ := Option.isSome_iff_exists.mp (by simpa using h)
    exact (Iff.mp finiteInstant_eq_some_iff ht).1
  · intro h
    obtain ⟨t, ht⟩ := h.read
    rw [Iff.mpr finiteInstant_eq_some_iff ⟨h, ht⟩]
    rfl

/-! ## Nothing missing or wrong -/

@[simp] theorem reason_eq_nil_iff {wrong : Bool} {text : String} :
    reason wrong text = [] ↔ wrong = false := by
  cases wrong <;> simp [reason]

/-- Numbers are equal exactly when they are one rational or one infinity. -/
theorem sameNumber_eq_true_iff {a b : ExtRat} :
    sameNumber a b = true ↔ a = b ∧ a ≠ .nan := by
  unfold sameNumber
  cases a <;> cases b <;> simp [ExtRat.le]
  exact le_antisymm_iff.symm

/-- A positive safe integer is a natural number. -/
theorem isSafeInteger_iff {x : ExtRat} :
    x.isSafeInteger = true ∧ ExtRat.lt x (.fin 1) = false ↔
      ∃ n : ℕ, 1 ≤ n ∧ n ≤ ExtRat.maxSafeInteger ∧ x = .fin n := by
  constructor
  · rintro ⟨hsafe, hpos⟩
    cases x with
    | nan | negInf | posInf => cases hsafe
    | fin q =>
      obtain ⟨hden, hmax⟩ := of_decide_eq_true hsafe
      rw [ExtRat.lt_fin, decide_eq_false_iff_not, not_lt] at hpos
      obtain ⟨n, rfl⟩ : ∃ n : ℤ, q = n := ⟨q.num, (Rat.coe_int_num_of_den_eq_one hden).symm⟩
      have hn : 1 ≤ n := by exact_mod_cast hpos
      obtain ⟨m, rfl⟩ := Int.eq_ofNat_of_zero_le (by omega : 0 ≤ n)
      simp only [Rat.num_intCast, Int.natAbs_natCast] at hmax
      exact ⟨m, by omega, hmax, rfl⟩
  · rintro ⟨n, hpos, hmax, rfl⟩
    refine ⟨decide_eq_true ⟨Rat.den_natCast n, by simpa using hmax⟩, ?_⟩
    rw [ExtRat.lt_fin, decide_eq_false_iff_not, not_lt]
    exact_mod_cast hpos

/-- The revisions are in order exactly when they are one positive safe integer. -/
theorem revisions_iff {e : RoutingEvidence V} :
    (∀ field ∈ e.revisions, (!field.2.isSafeInteger || ExtRat.lt field.2 (.fin 1)) = false) ∧
      e.recordRevision = e.bindingRevision ∧ e.recordRevision ≠ .nan ↔
      ∃ n : ℕ, 1 ≤ n ∧ n ≤ ExtRat.maxSafeInteger ∧ e.recordRevision = .fin n ∧
        e.bindingRevision = .fin n := by
  simp only [RoutingEvidence.revisions, List.forall_mem_cons, List.not_mem_nil, false_imp_iff,
    implies_true, and_true, Bool.or_eq_false_iff, Bool.not_eq_false', isSafeInteger_iff]
  constructor
  · rintro ⟨⟨⟨n, hpos, hmax, hn⟩, -⟩, hsame, -⟩
    exact ⟨n, hpos, hmax, hn, hsame ▸ hn⟩
  · rintro ⟨n, hpos, hmax, hrecord, hbinding⟩
    refine ⟨⟨⟨n, hpos, hmax, hrecord⟩, n, hpos, hmax, hbinding⟩, hrecord.trans hbinding.symm, ?_⟩
    rw [hrecord]
    exact fun h => by cases h

/-- A span is none unless it lies ordered within a segment. -/
theorem isInvalid_eq_false_iff {span : RoutingEvidenceSegment} :
    span.isInvalid = false ↔ span.Within := by
  obtain ⟨id, direction, a, b⟩ := span
  simp only [RoutingEvidenceSegment.isInvalid, RoutingEvidenceSegment.Within, Bool.or_eq_false_iff,
    decide_eq_false_iff_not, Bool.not_eq_false']
  constructor
  · rintro ⟨⟨⟨⟨⟨hid, ha⟩, hb⟩, hlow⟩, hhigh⟩, horder⟩
    cases a with
    | nan | negInf | posInf => cases ha
    | fin a =>
      cases b with
      | nan | negInf | posInf => cases hb
      | fin b =>
        simp only [ExtRat.lt_fin, decide_eq_false_iff_not, not_lt] at hlow hhigh horder
        exact ⟨hid, a, b, rfl, rfl, hlow, horder, hhigh⟩
  · rintro ⟨hid, a, b, rfl, rfl, hlow, horder, hhigh⟩
    simp [hid, hlow, horder, hhigh]

/-- One direction is all there is of a list exactly when it is its only distinct member. -/
theorem dedup_length_eq_one_iff {ds : List SegmentDirection} {d : SegmentDirection} :
    ds.dedup.length = 1 ∧ d ∈ ds ↔ ∀ x, x ∈ ds ↔ x = d := by
  constructor
  · rintro ⟨hlength, hd⟩ x
    obtain ⟨y, hy⟩ := List.length_eq_one_iff.mp hlength
    have hmem : ∀ z, z ∈ ds ↔ z = y := fun z => by
      rw [← List.mem_dedup, hy, List.mem_singleton]
    rw [hmem, (hmem d).mp hd]
  · intro h
    have hperm : ds.dedup.Perm [d] :=
      (List.perm_ext_iff_of_nodup (List.nodup_dedup ds) (List.nodup_singleton d)).mpr fun x => by
        rw [List.mem_dedup, List.mem_singleton, h]
    exact ⟨hperm.length_eq, (h d).mpr rfl⟩

/-- The directions are the ones of a known mode exactly when none is amiss. -/
theorem directionMismatch_eq_false_iff {mode : DirectionMode} {ds : List SegmentDirection}
    (hmode : mode ≠ .unknown) :
    directionMismatch mode ds = false ↔ ∀ d, d ∈ ds ↔ mode.names d = true := by
  cases mode with
  | unknown => exact absurd rfl hmode
  | forward =>
    simp only [directionMismatch, DirectionMode.names, decide_eq_false_iff_not, not_or, not_not,
      decide_eq_true_eq]
    exact dedup_length_eq_one_iff
  | reverse =>
    simp only [directionMismatch, DirectionMode.names, decide_eq_false_iff_not, not_or, not_not,
      decide_eq_true_eq]
    exact dedup_length_eq_one_iff
  | both =>
    simp only [directionMismatch, DirectionMode.names, decide_eq_false_iff_not, not_or, not_not,
      iff_true]
    constructor
    · rintro ⟨hforward, hreverse⟩ d
      cases d with
      | forward => exact hforward
      | reverse => exact hreverse
    · exact fun h => ⟨h .forward, h .reverse⟩

/-- A deadline is not reached at the instant of a date. -/
theorem reached_eq_false_iff {now : Option ℤ} {deadline : ℤ} :
    reached now deadline = false ↔ ∀ t, now = some t → t < deadline := by
  cases now with
  | none => simp [reached]
  | some t => simp [reached]

/-- A deadline is in order exactly when it is an instant that has not come. -/
theorem deadlineReason_eq_nil_iff {parse : String → Option ℤ} {now : Option ℤ}
    {text invalid late : String} :
    deadlineReason parse now text invalid late = [] ↔ NamesInstant parse text ∧
      ∀ t, now = some t → ∀ deadline, parse text = some deadline → t < deadline := by
  unfold deadlineReason
  cases hread : finiteInstant parse (some text) with
  | none =>
    refine ⟨fun h => (by cases h), fun h => ?_⟩
    rw [← finiteInstant_isNone_iff, hread] at h
    exact absurd h.1 (by simp)
  | some deadline =>
    obtain ⟨hnames, hparse⟩ := Iff.mp finiteInstant_eq_some_iff hread
    dsimp only
    rw [reason_eq_nil_iff, reached_eq_false_iff]
    refine ⟨fun h => ⟨hnames, fun t ht d hd => ?_⟩, fun h t ht => h.2 t ht deadline hparse⟩
    obtain rfl : deadline = d := Option.some.inj (hparse.symm.trans hd)
    exact h t ht

/-- An instant that need not be stated is in order exactly when it names one if it is. -/
theorem optionalInstant_iff {parse : String → Option ℤ} {value : Option String} :
    (value.isSome && (finiteInstant parse value).isNone) = false ↔
      ∀ text, value = some text → NamesInstant parse text := by
  cases value with
  | none => simp
  | some text =>
    rw [Option.isSome_some, Bool.true_and, finiteInstant_isNone_iff]
    exact ⟨fun h _ ht => Option.some.inj ht ▸ h, fun h => h text rfl⟩

/-- An identity is in order exactly when it is a text that is not blank. -/
theorem identity_iff {value : Option String} :
    value.all isBlank = false ↔ ∃ text, value = some text ∧ isBlank text = false := by
  cases value <;> simp

/-- What holds of all instants that evidence states. -/
theorem forall_instants_iff {e : RoutingEvidence V} {P : String → Prop} :
    (∀ text ∈ e.instants, P text) ↔ P e.sourceCheckedAt ∧ P e.evaluatedAt ∧ P e.freshUntil ∧
      (∀ text, e.expiresAt = some text → P text) ∧
      (∀ field ∈ e.transitions, ∀ text, field.2 = some text → P text) ∧
      ∀ text, e.rights.reviewedAt = some text → P text := by
  simp only [RoutingEvidence.instants, RoutingEvidence.transitions, List.forall_mem_append,
    List.forall_mem_cons, List.not_mem_nil, false_imp_iff, implies_true, and_true, and_assoc,
    Option.mem_toList]

/-- Selectors are in order exactly when there are some, where they are to be. -/
theorem selected_iff {a : RoutingApplicability V} :
    (decide (a.kind = .classes) && a.included.all List.isEmpty) = false ↔
      (a.kind = .classes → ∃ v vs, a.included = some (v :: vs)) := by
  by_cases hkind : a.kind = .classes
  · rcases hincluded : a.included with - | - | ⟨v, vs⟩ <;> simp [hkind]
  · simp [hkind]

/-- The spans are in order exactly when there are some, each within its segment, in the directions
of a known mode. -/
theorem segmentReasons_eq_nil_iff {e : RoutingEvidence V} (hmode : e.directionMode ≠ .unknown) :
    segmentReasons e = [] ↔ e.segments ≠ [] ∧ (∀ span ∈ e.segments, span.Within) ∧
      ∀ d, d ∈ e.segments.map RoutingEvidenceSegment.direction ↔
        e.directionMode.names d = true := by
  unfold segmentReasons
  rw [List.append_eq_nil_iff, reason_eq_nil_iff, directionMismatch_eq_false_iff hmode]
  split_ifs with hnone
  · simp [hnone]
  · rw [reason_eq_nil_iff, List.any_eq_false]
    simp only [Bool.not_eq_true, isInvalid_eq_false_iff]
    exact ⟨fun h => ⟨hnone, h.1, h.2⟩, fun h => ⟨h.2.1, h.2.2⟩⟩

/-- **The check fails closed** but for its date: nothing is missing or wrong exactly when the
evidence is sound and, at the instant of a valid date, neither stale nor expired. -/
theorem routingEvidenceReasons_eq_nil_iff (parse : String → Option ℤ) (e : RoutingEvidence V)
    (now : Option ℤ) :
    routingEvidenceReasons parse e now = [] ↔
      e.Sound parse ∧ ∀ t, now = some t → e.InTime parse t := by
  have hexpires : e.expiresAt.elim []
      (fun text => deadlineReason parse now text "expires_at_invalid" "record_expired") = [] ↔
      ∀ text, e.expiresAt = some text → NamesInstant parse text ∧
        ∀ t, now = some t → ∀ deadline, parse text = some deadline → t < deadline := by
    cases e.expiresAt with
    | none => simp
    | some text =>
      rw [Option.elim_some, deadlineReason_eq_nil_iff]
      exact ⟨fun h _ ht => Option.some.inj ht ▸ h, fun h => h text rfl⟩
  simp only [routingEvidenceReasons, List.append_eq_nil_iff, List.flatMap_eq_nil_iff,
    reason_eq_nil_iff, deadlineReason_eq_nil_iff, hexpires, finiteInstant_isNone_iff,
    optionalInstant_iff, identity_iff, selected_iff, decide_eq_false_iff_not, Bool.not_eq_false',
    sameNumber_eq_true_iff, not_not, and_assoc]
  constructor
  · rintro ⟨hschema, -, hidentity, hrevisions, hsame, hnumber, hbinding, hchecked, hevaluated,
      hnames, hfresh, hexpiry, htransitions, hpermitted, hreviewed, happlicable, hselected,
      hdirected, hsegments, hcodes⟩
    obtain ⟨hbound, hspans, hdirections⟩ := (segmentReasons_eq_nil_iff hdirected).mp hsegments
    refine ⟨?_, fun t ht => ⟨hfresh t ht, fun text deadline htext => (hexpiry text htext).2 t ht
      deadline⟩⟩
    exact
      { schema := hschema
        identity := hidentity
        revision := Iff.mp revisions_iff ⟨hrevisions, hsame, hnumber⟩
        binding := or_iff_not_and_not.mpr hbinding
        instants := Iff.mpr forall_instants_iff ⟨hchecked, hevaluated, hnames,
          fun text htext => (hexpiry text htext).1, htransitions, hreviewed⟩
        permitted := hpermitted
        applicable := happlicable
        selected := hselected
        directed := hdirected
        bound := hbound
        spans := hspans
        directions := hdirections
        unreported := List.isEmpty_iff.mp hcodes }
  · rintro ⟨h, hintime⟩
    obtain ⟨hchecked, hevaluated, hnames, hexpiry, htransitions, hreviewed⟩ :=
      Iff.mp forall_instants_iff h.instants
    obtain ⟨hrevisions, hsame, hnumber⟩ := Iff.mpr revisions_iff h.revision
    have hversion : e.schemaVersion ≠ .nan := by
      rw [h.schema]
      exact fun hnan => by cases hnan
    exact ⟨h.schema, hversion, h.identity, hrevisions, hsame,
      hnumber, or_iff_not_and_not.mp h.binding, hchecked, hevaluated, hnames,
      fun t ht => (hintime t ht).fresh,
      fun text htext => ⟨hexpiry text htext, fun t ht deadline =>
        (hintime t ht).unexpired text deadline htext⟩,
      htransitions, h.permitted, hreviewed, h.applicable, h.selected, h.directed,
      (segmentReasons_eq_nil_iff h.directed).mpr ⟨h.bound, h.spans, h.directions⟩,
      List.isEmpty_iff.mpr h.unreported⟩

/-! ## At an invalid date -/

/-- The dates of complete evidence for a closure. -/
def closureDates (text : String) : Option ℤ :=
  if text = "2026-09-11T09:55:00.000Z" then some 1789120500000
  else if text = "2026-09-11T10:00:00.000Z" then some 1789120800000
  else if text = "2026-09-11T10:15:00.000Z" then some 1789121700000
  else none

/-- Complete evidence for a closure. -/
def closureEvidence : RoutingEvidence Unit where
  schemaVersion := .fin 2
  recordId := some "oc:situation:de-autobahn-events:a1"
  effectId := some "a1/closure"
  recordRevision := .fin 2
  bindingRevision := .fin 2
  effectKind := some "closure"
  graphGeneration := some "graph-1"
  resolverVersion := some "1.0.0"
  sourceId := some "de-autobahn-events"
  sourceLicense := some "DL-DE-BY-2.0"
  sourceCheckedAt := "2026-09-11T09:55:00.000Z"
  freshUntil := "2026-09-11T10:15:00.000Z"
  expiresAt := none
  validFrom := none
  validTo := none
  nextTransitionAt := none
  directionMode := .forward
  applicability := { kind := .all }
  rights := ⟨.yes, .yes, .yes, .yes, none⟩
  segments := [⟨"123:f", .forward, .fin (1 / 5), .fin (4 / 5)⟩]
  bindingStatus := .exact
  reasonCodes := []
  evaluatedAt := "2026-09-11T10:00:00.000Z"

/-- The evidence goes stale. -/
example : routingEvidenceReasons closureDates closureEvidence (some 1789121700000) =
    ["source_stale"] := by
  decide +kernel

/-- **At an invalid date** no deadline is checked: evidence passes at no instant before it is
stale. -/
theorem stale_at_invalid_date :
    ¬ ∀ (e : RoutingEvidence Unit) (now : Option ℤ),
      routingEvidenceReasons closureDates e now = [] →
        e.Sound closureDates ∧ ∃ t, now = some t ∧ e.InTime closureDates t := by
  intro h
  obtain ⟨-, t, ht, -⟩ := h closureEvidence none (by decide +kernel)
  cases ht

end OpenConditions.Core

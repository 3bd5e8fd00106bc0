import OpenConditions.Lib.OrderedMap
import OpenConditions.Lib.Run

set_option relaxedAutoImplicit false
set_option autoImplicit false

/-!
# Binding situations to the road graph

Writers queue the graph binding of a situation in the transaction that writes its revision
(`enqueueBindings` of `packages/storage/src/write-records.ts`), and binder passes (`bindRecords` of
`services/ingest/src/pipeline/bind-records.ts`) work the queue off.  A pass is not one transaction:
it reads the situations, reads their bindings, drops the bindings without a target, resolves and
writes the targets, each in a transaction of its own, and settles the queue; writers and other
passes commit in between.

`J` is the type of the JSON values that the resolver reads, `I` of its inputs, and `D` of what else
a result says: its confidence, its direction, its candidates and its spans, which are written and
deleted with it.  The situations here are the live ones of the roads domain, and the graph is ready.

## Main definitions

* `targetsOf` — the locations of a situation that are bound.
* `writeSituation`, `clearStale`, `writeResult`, `settleQueue` — the transactions.
* `bindStep` — writers and passes, interleaved.
* `Bound` — the binding rows of a situation were written for its stored revision.
-/

namespace OpenConditions.Pipeline

/-! ## Targets -/

/-- What a binding says of its location. -/
inductive BindingStatus where
  | exact | likely | ambiguous | unresolved | noCoverage | notApplicable | obsolete
  deriving DecidableEq, Repr

/-- What the resolver finds. -/
structure BindResult (D : Type) where
  status : BindingStatus
  reason : Option String
  detail : D
  deriving DecidableEq

/-- An effect with a geometry of its own. -/
structure OverrideRow (J : Type) where
  effectId : String
  geojson : J
  location : J
  direction : Option J
  ramp : Bool
  deriving DecidableEq

/-- An effect without a location whose direction differs from its situation's. -/
structure DirectedRow (J : Type) where
  effectId : String
  direction : J
  ramp : Bool
  deriving DecidableEq

/-- A stored situation, as a pass reads it. -/
structure SituationRow (J : Type) where
  id : String
  kind : String
  revision : ℕ
  geojson : Option J
  location : Option J
  headline : J
  description : J
  effectKinds : List String
  overrides : List (OverrideRow J)
  directed : List (DirectedRow J)
  /-- The closures of a ramp without a location or a direction of their own. -/
  ramps : List String
  deriving DecidableEq

/-- One location the resolver places: the situation's own (`effectId` is empty) or an effect's. -/
structure Target (I : Type) where
  recordId : String
  effectId : String
  revision : ℕ
  input : I
  hash : String
  precise : Bool
  deriving DecidableEq

/-- The resolver on a graph: how it reads a location, and what it finds. -/
structure Resolver (J I D : Type) where
  toBindInput : String → J → String → Option J → List J → Option J → Bool → I
  inputHash : I → List String → String
  /-- Whether a location is exact: it states no fuzziness, or says so. -/
  isExact : Option J → Bool
  /-- A location with the members of another one over its own. -/
  overlay : Option J → J → J
  resolveBinding : I → BindResult D
  /-- What a failure says beside its status and reason. -/
  noDetail : D
  version : String
  generation : String

section Model

variable {J I D : Type} (R : Resolver J I D)

/-- One target of a situation. -/
def target (row : SituationRow J) (effectId : String) (geometry : J) (location : Option J)
    (effectDirection : Option J) (slipRoadOnly : Bool) : Target I :=
  let precise := R.isExact location
  let input := R.toBindInput (if effectId = "" then row.id else row.id ++ "#" ++ effectId) geometry
    row.kind location [row.headline, row.description] effectDirection slipRoadOnly
  { recordId := row.id
    effectId := effectId
    revision := row.revision
    input := input
    hash := R.inputHash input row.effectKinds ++ ":" ++ if precise then "exact" else "coarse"
    precise := precise }

/-- The targets of a situation: its own location, then the effects that name a geometry, those of a
direction of their own, and the ramp closures at its location. -/
def targetsOf (row : SituationRow J) : List (Target I) :=
  (row.geojson.toList.map fun geometry => target R row "" geometry row.location none false) ++
    (row.overrides.map fun o =>
      target R row o.effectId o.geojson (some (R.overlay row.location o.location)) o.direction
        o.ramp) ++
    row.geojson.toList.flatMap fun geometry =>
      (row.directed.map fun d =>
        target R row d.effectId geometry row.location (some d.direction) d.ramp) ++
      row.ramps.map fun effectId => target R row effectId geometry row.location none true

/-- A failed binding. -/
def failure (status : BindingStatus) (reason : String) : BindResult D :=
  ⟨status, some reason, R.noDetail⟩

/-! ## The tables -/

/-- Queued binding work. -/
structure QueueRow where
  recordRevision : ℕ
  attempts : ℕ
  lastError : Option String
  deriving DecidableEq, Repr

/-- A stored binding, with its spans. -/
structure Binding (D : Type) where
  result : BindResult D
  resolverVersion : String
  geomHash : String
  recordRevision : ℕ
  graphGeneration : Option String
  deriving DecidableEq

/-- A record and an effect of it. -/
abbrev BindingKey := String × String

/-- The tables of the binder. -/
structure BindDb (J D : Type) where
  situations : OrderedMap String (SituationRow J)
  queue : OrderedMap String QueueRow
  bindings : OrderedMap BindingKey (Binding D)

/-- Commits a new revision of a situation, together with its row in the queue. -/
def writeSituation (db : BindDb J D) (row : SituationRow J) : BindDb J D :=
  { db with
    situations := db.situations.set row.id row
    queue := db.queue.set row.id ⟨row.revision, 0, none⟩ }

/-- Drops the bindings that were read and have no target. -/
def clearStale (db : BindDb J D) (existing : OrderedMap BindingKey (Binding D))
    (live : List BindingKey) : BindDb J D :=
  { db with
    bindings := db.bindings.filter fun b => !(existing.has b.1 && !live.contains b.1) }

/-- Replaces the binding of one target, while the situation is at the target's revision. -/
def writeResult (db : BindDb J D) (t : Target I) (r : BindResult D) : BindDb J D × Bool :=
  match db.situations.get t.recordId with
  | none => (db, false)
  | some current =>
    if current.revision = t.revision then
      ({ db with
        bindings := db.bindings.set (t.recordId, t.effectId)
          { result := r
            resolverVersion := R.version
            geomHash := t.hash
            recordRevision := t.revision
            graphGeneration := some R.generation } }, true)
    else (db, false)

/-- The records of a pass whose work is acknowledged. -/
def doneIds (ids retry unfinished : List String) : List String :=
  ids.filter fun id => decide (id ∉ retry ∧ id ∉ unfinished)

/-- Settles the queued work of a pass: of a record that is done it is acknowledged up to the
revision now stored, and of one with a resolver error it is put back. -/
def settleQueue (db : BindDb J D) (ids retry unfinished : List String) : BindDb J D :=
  let acknowledged := db.queue.filter fun k =>
    !decide (k.1 ∈ doneIds ids retry unfinished ∧
      k.2.recordRevision ≤
        ((db.situations.get k.1).map SituationRow.revision).getD k.2.recordRevision)
  { db with
    queue := acknowledged.mapValues fun id q =>
      if id ∈ retry then
        { q with attempts := q.attempts + 1, lastError := some "resolver_error" }
      else q }

/-! ## Passes -/

/-- How far a pass has come, and what it has read. -/
inductive Stage (J I D : Type) where
  | started
  | rowsRead (rows : List (SituationRow J))
  | existingRead (rows : List (SituationRow J)) (existing : OrderedMap BindingKey (Binding D))
  | resolving (rows : List (SituationRow J)) (existing : OrderedMap BindingKey (Binding D))
      (todo : List (Target I)) (retry unfinished : List String)

/-- A running pass. -/
structure Pass (J I D : Type) where
  ids : List String
  stage : Stage J I D

/-- The tables, and the passes that are running. -/
structure BindState (J I D : Type) where
  db : BindDb J D
  passes : OrderedMap ℕ (Pass J I D)

/-- What happens. -/
inductive BindEvent (J : Type) where
  /-- A writer commits a new revision. -/
  | write (row : SituationRow J)
  /-- A pass over some records starts. -/
  | start (pass : ℕ) (ids : List String)
  /-- A pass reads the situations. -/
  | readRows (pass : ℕ)
  /-- A pass reads their bindings. -/
  | readExisting (pass : ℕ)
  /-- A pass drops the bindings without a target. -/
  | clear (pass : ℕ)
  /-- A worker of a pass takes one of the targets that are left; resolving it or writing its result
  may throw. -/
  | bind (pass : ℕ) (i : ℕ) (resolverFails writeFails : Bool)
  /-- A pass without targets left settles the queue and ends. -/
  | settle (pass : ℕ)
  /-- A pass throws, or its process ends. -/
  | abort (pass : ℕ)
  deriving DecidableEq

/-- The targets of the situations a pass has read. -/
def passTargets (rows : List (SituationRow J)) : List (Target I) := rows.flatMap (targetsOf R)

/-- The keys of the targets of the situations a pass has read. -/
def liveKeys (rows : List (SituationRow J)) : List BindingKey :=
  (passTargets R rows).map fun t => (t.recordId, t.effectId)

/-- Whether a stored binding still answers for a target. -/
def isUnchanged (before : Option (Binding D)) (t : Target I) : Bool :=
  before.any fun b => decide (b.geomHash = t.hash ∧ b.resolverVersion = R.version ∧
    b.result.status ≠ .obsolete ∧ b.recordRevision = t.revision ∧
    b.graphGeneration = some R.generation)

/-- What is found for a target. -/
def resolveTarget (t : Target I) (resolverFails : Bool) : BindResult D :=
  if t.precise then
    if resolverFails then failure R .unresolved "resolver_error" else R.resolveBinding t.input
  else failure R .unresolved "location_not_exact"

/-- Resolves one target and writes its result: the tables, and whether the record is to be tried
again and whether its work is unfinished. -/
def bindTarget (db : BindDb J D) (existing : OrderedMap BindingKey (Binding D)) (t : Target I)
    (resolverFails writeFails : Bool) : BindDb J D × Bool × Bool :=
  if isUnchanged R (existing.get (t.recordId, t.effectId)) t then (db, false, false)
  else
    let r := resolveTarget R t resolverFails
    let retry := decide (r.reason = some "resolver_error")
    if writeFails then (db, retry, true)
    else ((writeResult R db t r).1, retry, !(writeResult R db t r).2)

/-- One step of a pass; `none` when it is not at that step. -/
def passStep (db : BindDb J D) (pass : Pass J I D) :
    BindEvent J → Option (BindDb J D × Option (Pass J I D))
  | .readRows _ =>
    match pass.stage with
    | .started =>
      let rows := (db.situations.entries.map Prod.snd).filter fun r => decide (r.id ∈ pass.ids)
      some (db, some { pass with stage := .rowsRead rows })
    | _ => none
  | .readExisting _ =>
    match pass.stage with
    | .rowsRead rows =>
      let existing := db.bindings.filter fun b => decide (b.1.1 ∈ pass.ids)
      some (db, some { pass with stage := .existingRead rows existing })
    | _ => none
  | .clear _ =>
    match pass.stage with
    | .existingRead rows existing =>
      some (clearStale db existing (liveKeys R rows),
        some { pass with stage := .resolving rows existing (passTargets R rows) [] [] })
    | _ => none
  | .bind _ i resolverFails writeFails =>
    match pass.stage with
    | .resolving rows existing todo retry unfinished =>
      todo[i]?.map fun t =>
        let (db', again, left) := bindTarget R db existing t resolverFails writeFails
        (db', some { pass with
          stage := .resolving rows existing (todo.eraseIdx i)
            (if again then t.recordId :: retry else retry)
            (if left then t.recordId :: unfinished else unfinished) })
    | _ => none
  | .settle _ =>
    match pass.stage with
    | .resolving _ _ [] retry unfinished =>
      some (settleQueue db pass.ids retry unfinished, none)
    | _ => none
  | .abort _ => some (db, none)
  | _ => none

/-- Puts a pass back, or removes it when it has ended. -/
def putPass (passes : OrderedMap ℕ (Pass J I D)) (p : ℕ) (pass : Option (Pass J I D)) :
    OrderedMap ℕ (Pass J I D) :=
  match pass with
  | some pass => passes.set p pass
  | none => passes.delete p

/-- The pass an event is a step of. -/
def BindEvent.pass? : BindEvent J → Option ℕ
  | .write _ | .start _ _ => none
  | .readRows p | .readExisting p | .clear p | .bind p _ _ _ | .settle p | .abort p => some p

/-- Writers and passes, interleaved: one transaction or statement a step. -/
def bindStep (s : BindState J I D) (event : BindEvent J) : Option (BindState J I D) :=
  match event with
  | .write row =>
    if (s.db.situations.get row.id).all fun stored => decide (stored.revision < row.revision) then
      some { s with db := writeSituation s.db row }
    else none
  | .start p ids =>
    if ids ≠ [] ∧ s.passes.get p = none then
      some { s with passes := s.passes.set p ⟨ids, .started⟩ }
    else none
  | event =>
    event.pass?.bind fun p => (s.passes.get p).bind fun pass =>
      (passStep R s.db pass event).map fun (db, pass') =>
        { db := db, passes := putPass s.passes p pass' }

/-! ## Bound situations -/

/-- A location of a record is bound at a revision. -/
def BoundAt (db : BindDb J D) (id effectId : String) (revision : ℕ) : Prop :=
  ∃ b, db.bindings.get (id, effectId) = some b ∧ b.recordRevision = revision

/-- An effect of a situation names one of its targets. -/
def IsTarget (row : SituationRow J) (effectId : String) : Prop :=
  ∃ t ∈ targetsOf R row, t.effectId = effectId

/-- The binding rows of a situation were written for its stored revision: each of its targets has
one of that revision, and it has no others. -/
structure Bound (db : BindDb J D) (row : SituationRow J) : Prop where
  written : ∀ effectId, IsTarget R row effectId → BoundAt db row.id effectId row.revision
  only : ∀ effectId, ¬IsTarget R row effectId → db.bindings.get (row.id, effectId) = none

/-- No binding work is lost: a situation that has no row in the queue is bound. -/
def WorkKept (db : BindDb J D) : Prop :=
  ∀ id row, db.situations.get id = some row → db.queue.get id = none → Bound R db row

end Model

end OpenConditions.Pipeline

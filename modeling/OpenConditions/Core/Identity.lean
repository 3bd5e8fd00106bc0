import Mathlib.Data.List.Basic

set_option relaxedAutoImplicit false
set_option autoImplicit false

/-!
# Record ids

Record ids and their parts (`packages/model/src/kernel/identity.ts`): `oc:<class>:<namespace>:
<localId>`, where the namespace never contains a colon and the local id may.

## Main definitions

* `parseRecordId`, `formatRecordId` — a record id and its parts.

## Main results

* `parseRecordId_formatRecordId` — an id of parts tells them.
* `formatRecordId_parseRecordId` — an id is that of its parts.
-/

namespace OpenConditions.Core

/-- The parts of a record id. -/
structure RecordIdParts where
  recordClass : String
  ns : String
  localId : String
  deriving DecidableEq, Repr

/-- The classes of records. -/
def recordClasses : List String := ["feature", "situation", "observation", "offer"]

/-- A lower-case letter or a digit. -/
def isAlnum (c : Char) : Bool := ('a' ≤ c && c ≤ 'z') || ('0' ≤ c && c ≤ '9')

/-- A character inside a namespace. -/
def isNamespaceChar (c : Char) : Bool := isAlnum c || c == '.' || c == '-'

/-- The grammar of namespaces, of source ids and of instance ids. -/
def isNamespace (s : List Char) : Bool :=
  s.all isNamespaceChar && (s.head?.map isAlnum).getD false && (s.getLast?.map isAlnum).getD false

/-- A character that ends a line, which a record id cannot hold. -/
def isLineTerminator (c : Char) : Bool :=
  c == '\n' || c == '\r' || c == '\u2028' || c == '\u2029'

/-- The text before the first colon and the text after it. -/
def splitColon (s : List Char) : Option (List Char × List Char) :=
  match s.dropWhile (· ≠ ':') with
  | [] => none
  | _ :: rest => some (s.takeWhile (· ≠ ':'), rest)

/-- The parts of a text that is a record id. -/
def parseRecordId (id : String) : Option RecordIdParts := do
  let (oc, rest) ← splitColon id.toList
  let (cls, rest) ← splitColon rest
  let (ns, localId) ← splitColon rest
  if oc = "oc".toList && recordClasses.contains (String.ofList cls) && isNamespace ns &&
      !localId.isEmpty && localId.all (fun c => !isLineTerminator c) then
    some ⟨String.ofList cls, String.ofList ns, String.ofList localId⟩
  else none

/-- The record id of some parts. -/
def formatRecordId (p : RecordIdParts) : String :=
  String.ofList ("oc:".toList ++ p.recordClass.toList ++ ':' :: p.ns.toList ++
    ':' :: p.localId.toList)

/-- Parts of a record id. -/
structure RecordIdParts.Valid (p : RecordIdParts) : Prop where
  recordClass : p.recordClass ∈ recordClasses
  ns : isNamespace p.ns.toList = true
  localId : p.localId.toList ≠ []
  oneLine : ∀ c ∈ p.localId.toList, isLineTerminator c = false

/-- A text is split at the first colon. -/
theorem splitColon_append {s rest : List Char} (h : ':' ∉ s) :
    splitColon (s ++ ':' :: rest) = some (s, rest) := by
  have hall : ∀ c ∈ s, decide (c ≠ ':') = true := fun c hc =>
    decide_eq_true fun heq => h (heq ▸ hc)
  unfold splitColon
  rw [List.dropWhile_append_of_pos hall, List.takeWhile_append_of_pos hall]
  simp

/-- A namespace holds no colon. -/
theorem not_mem_of_isNamespace {s : List Char} (h : isNamespace s = true) : ':' ∉ s := by
  intro hmem
  simp only [isNamespace, Bool.and_eq_true, List.all_eq_true] at h
  exact absurd (h.1.1 ':' hmem) (by decide)

/-- The characters of an id. -/
theorem toList_formatRecordId (p : RecordIdParts) : (formatRecordId p).toList =
    "oc".toList ++ ':' :: (p.recordClass.toList ++ ':' :: (p.ns.toList ++ ':' ::
      p.localId.toList)) := by
  have hoc : "oc:".toList = "oc".toList ++ [':'] := by decide
  calc (formatRecordId p).toList = "oc:".toList ++ p.recordClass.toList ++ ':' :: p.ns.toList ++
        ':' :: p.localId.toList := String.toList_ofList
    _ = _ := by
      rw [hoc]
      simp only [List.append_assoc, List.cons_append, List.nil_append]

/-- **An id of parts tells them.** -/
theorem parseRecordId_formatRecordId {p : RecordIdParts} (h : p.Valid) :
    parseRecordId (formatRecordId p) = some p := by
  have hclass : ':' ∉ p.recordClass.toList := by
    have hall : ∀ c ∈ recordClasses, ':' ∉ c.toList := by decide
    exact hall _ h.recordClass
  have hns := not_mem_of_isNamespace h.ns
  have hid := toList_formatRecordId p
  have hoc : ':' ∉ "oc".toList := by decide
  have hlocal : p.localId.toList.isEmpty = false := by
    rw [List.isEmpty_eq_false_iff]
    exact h.localId
  have hline : p.localId.toList.all (fun c => !isLineTerminator c) = true :=
    List.all_eq_true.mpr fun c hc => by rw [h.oneLine c hc]; rfl
  unfold parseRecordId
  rw [hid, splitColon_append hoc]
  simp only [Option.bind_eq_bind, Option.bind_some, splitColon_append hclass,
    splitColon_append hns, String.ofList_toList, h.ns, hlocal, hline, Bool.not_false, Bool.and_true,
    decide_true, Bool.true_and, List.contains_iff_mem.mpr h.recordClass, if_true]

/-- The two texts of a split text. -/
theorem splitColon_eq_some {s a rest : List Char} (h : splitColon s = some (a, rest)) :
    s = a ++ ':' :: rest := by
  unfold splitColon at h
  split at h
  · cases h
  · next c rest' hdrop =>
    obtain ⟨rfl, rfl⟩ := Prod.mk.inj (Option.some.inj h)
    have hc : c = ':' := by
      have hhead := List.head?_dropWhile_not (fun c : Char => decide (c ≠ ':')) s
      rw [hdrop] at hhead
      simpa using hhead
    subst hc
    rw [← hdrop, List.takeWhile_append_dropWhile]

/-- **An id is that of its parts.** -/
theorem formatRecordId_parseRecordId {id : String} {p : RecordIdParts}
    (h : parseRecordId id = some p) : formatRecordId p = id := by
  unfold parseRecordId at h
  obtain ⟨⟨oc, rest₁⟩, hoc, h⟩ := Option.bind_eq_some_iff.mp h
  obtain ⟨⟨cls, rest₂⟩, hcls, h⟩ := Option.bind_eq_some_iff.mp h
  obtain ⟨⟨ns, localId⟩, hns, h⟩ := Option.bind_eq_some_iff.mp h
  simp only at hcls hns h
  split_ifs at h with hvalid
  obtain rfl := Option.some.inj h
  simp only [Bool.and_eq_true, decide_eq_true_eq] at hvalid
  have hid : id.toList = "oc".toList ++ ':' :: (cls ++ ':' :: (ns ++ ':' :: localId)) := by
    rw [← hvalid.1.1.1.1, ← splitColon_eq_some hns, ← splitColon_eq_some hcls]
    exact splitColon_eq_some hoc
  apply String.toList_injective
  rw [hid, toList_formatRecordId]
  simp only [String.toList_ofList]

end OpenConditions.Core

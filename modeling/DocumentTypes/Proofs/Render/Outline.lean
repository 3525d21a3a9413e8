import DocumentTypes.Render.Snapshot
import Mathlib.Data.List.Basic

/-!
What a rendering says about a type, with other types by their names (`TypeOutline`), and how this is
read back from JSON. Reading looks for expansions of types and references to types anywhere in a
value (`Json.occurrences`), in the order of the document. The type of a field reads the same whether
it was expanded or referred to (`Json.typeExpr?`), and the entries of fields read as their outlines.
-/

set_option autoImplicit false

namespace DocumentTypes

/-- A field, with types by their names. -/
structure FieldOutline where
  name : String
  type : TypeExpr
  description : Option String
deriving DecidableEq, Repr

/-- A type, with other types by their names. -/
structure TypeOutline where
  name : String
  description : Option String
  kind : ClassKind
  fields : List FieldOutline
deriving DecidableEq, Repr

namespace World

variable {P : Producers}

/-- The type of a field, with types by their names. -/
def typeExpr (w : World P) : TypeRef → TypeExpr
  | .scalar s => .scalar s
  | .list element => .list (w.typeExpr element)
  | .named type => .named (w.typeAt type).name

theorem text_typeExpr (w : World P) (type : TypeRef) :
    (w.typeExpr type).text = w.typeText type := by
  induction type with
  | scalar s => rfl
  | list element ih => rw [typeExpr, TypeExpr.text, ih, typeText]
  | named type => rfl

def fieldOutline (w : World P) (field : String × FieldSpec) : FieldOutline :=
  ⟨field.1, w.typeExpr field.2.type, field.2.description⟩

/-- The outline of a type with the given fields. -/
def outline (w : World P) (type : TypeId) (fields : FieldMap) : TypeOutline :=
  let t := w.typeAt type
  ⟨t.name, t.description, t.kind, fields.entries.map w.fieldOutline⟩

end World

/-- The class that a keyword stands for. -/
def ClassKind.ofKeyword? (keyword : String) : Option ClassKind :=
  all.find? fun kind ↦ kind.keyword = keyword

theorem ClassKind.ofKeyword?_keyword (kind : ClassKind) : ofKeyword? kind.keyword = some kind := by
  cases kind <;> decide

/-- What stands at some place of a snapshot: a type with its fields, or a reference to a type. -/
inductive Occurrence where
  | expansion (type : TypeOutline)
  | reference (name : String)
deriving DecidableEq, Repr

namespace Occurrence

def outline? : Occurrence → Option TypeOutline
  | expansion type => some type
  | reference _ => none

def reference? : Occurrence → Option String
  | expansion _ => none
  | reference name => some name

theorem outline?_eq_some {occurrence : Occurrence} {type : TypeOutline}
    (h : occurrence.outline? = some type) : occurrence = .expansion type := by
  cases occurrence with
  | expansion _ => exact congrArg expansion (Option.some.inj h)
  | reference _ => exact absurd h (by simp [outline?])

end Occurrence

namespace Json

/-- The type that a value stands for: a scalar by its name, a list, or a type by the name in its
expansion or in a reference to it. -/
def typeExpr? : Json → Option TypeExpr
  | .string name => (Scalar.ofName? name).map .scalar
  | .object [("listOf", element)] => element.typeExpr?.map .list
  | .object [("$ref", .string name)] => some (.named name)
  | .object (("name", .string name) :: _) => some (.named name)
  | _ => none

/-- The field that an entry stands for. -/
def fieldOutline? : String × Json → Option FieldOutline
  | (name, .object [("type", type)]) => type.typeExpr?.map fun type ↦ ⟨name, type, none⟩
  | (name, .object [("type", type), ("description", .string text)]) =>
    type.typeExpr?.map fun type ↦ ⟨name, type, some text⟩
  | _ => none

/-- The text that a value stands for where there may be none. -/
def optionalText? : Json → Option (Option String)
  | .null => some none
  | .string text => some (some text)
  | _ => none

/-- The type that the members of an object expand. -/
def outline? : List (String × Json) → Option TypeOutline
  | [("name", .string name), ("description", description), ("kind", .string keyword),
      ("fields", .object fields)] =>
    match optionalText? description, ClassKind.ofKeyword? keyword, fields.mapM fieldOutline? with
    | some description, some kind, some fields => some ⟨name, description, kind, fields⟩
    | _, _, _ => none
  | _ => none

/-- What the members of an object are, other than what stands in them. -/
def occurrence? : List (String × Json) → Option Occurrence
  | [("$ref", .string name)] => some (.reference name)
  | members => (outline? members).map .expansion

mutual

/-- The expansions and references in a value, in the order in which they begin. -/
def occurrences : Json → List Occurrence
  | array items => itemOccurrences items
  | object members => (occurrence? members).toList ++ memberOccurrences members
  | _ => []

def itemOccurrences : List Json → List Occurrence
  | [] => []
  | item :: rest => item.occurrences ++ itemOccurrences rest

def memberOccurrences : List (String × Json) → List Occurrence
  | [] => []
  | (_, value) :: rest => value.occurrences ++ memberOccurrences rest

end

/-- The types that a value expands. -/
def outlines (json : Json) : List TypeOutline :=
  json.occurrences.filterMap Occurrence.outline?

/-- The names that a value refers to. -/
def references (json : Json) : List String :=
  json.occurrences.filterMap Occurrence.reference?

/-- The fields of the type of a name, as the value expands it. -/
def fieldsOf? (json : Json) (name : String) : Option (List FieldOutline) :=
  (json.outlines.find? fun type ↦ type.name = name).map TypeOutline.fields

theorem length_outlines_add_length_references (json : Json) :
    json.outlines.length + json.references.length = json.occurrences.length := by
  rw [outlines, references]
  induction json.occurrences with
  | nil => rfl
  | cons occurrence rest ih =>
    cases occurrence with
    | expansion type =>
      show (rest.filterMap Occurrence.outline?).length + 1 + _ = rest.length + 1
      rw [← ih]
      exact Nat.add_right_comm _ _ _
    | reference name =>
      show _ + ((rest.filterMap Occurrence.reference?).length + 1) = rest.length + 1
      rw [← ih]
      rfl

/-- A type that is expanded is found by its name when the names are different. -/
theorem fieldsOf?_of_mem {json : Json} (h : (json.outlines.map TypeOutline.name).Nodup)
    {type : TypeOutline} (htype : type ∈ json.outlines) :
    json.fieldsOf? type.name = some type.fields := by
  have hfind : json.outlines.find? (fun other ↦ other.name = type.name) = some type := by
    obtain ⟨before, after, hsplit⟩ := List.append_of_mem htype
    rw [hsplit, List.map_append, List.nodup_append] at h
    refine List.find?_eq_some_iff_append.mpr ⟨by simp, before, after, hsplit, fun other hother ↦ ?_⟩
    have hne := h.2.2 other.name (List.mem_map_of_mem hother) type.name (by simp)
    simpa using hne
  rw [fieldsOf?, hfind]
  rfl

end Json

open Json

theorem fieldOutline?_fieldEntry {type : Json} {expr : TypeExpr} (h : type.typeExpr? = some expr)
    (name : String) (description : Option String) :
    fieldOutline? (name, fieldEntry type description) = some ⟨name, expr, description⟩ := by
  cases description with
  | none => simp [fieldOutline?, fieldEntry, h]
  | some text => simp [fieldOutline?, fieldEntry, h]

theorem occurrences_fieldEntry (type : Json) (description : Option String) :
    (fieldEntry type description).occurrences = type.occurrences := by
  cases description with
  | none => simp [fieldEntry, occurrences, memberOccurrences, occurrence?, outline?]
  | some text => simp [fieldEntry, occurrences, memberOccurrences, occurrence?, outline?]

theorem occurrences_list (element : Json) :
    (Json.object [("listOf", element)]).occurrences = element.occurrences := by
  simp [occurrences, memberOccurrences, occurrence?, outline?]

theorem occurrences_reference (name : String) :
    (Json.object [("$ref", .string name)]).occurrences = [.reference name] := by
  simp [occurrences, memberOccurrences, occurrence?]

theorem optionalText?_getD (text : Option String) :
    optionalText? ((text.map Json.string).getD .null) = some text := by
  cases text <;> rfl

theorem occurrences_getD (text : Option String) :
    ((text.map Json.string).getD .null).occurrences = [] := by
  cases text <;> simp [occurrences]

/-- The fields of a type are neither a reference nor an expansion, whatever their names are: their
entries are objects. -/
theorem occurrence?_of_mapM {entries : List (String × Json)} {fields : List FieldOutline}
    (h : entries.mapM fieldOutline? = some fields) : occurrence? entries = none := by
  unfold occurrence? outline?
  split
  · simp [List.mapM_cons, fieldOutline?] at h
  · split
    · simp [List.mapM_cons, fieldOutline?] at h
    · rfl

namespace World

variable {P : Producers}

/-- An expansion is a type with its fields, and after it comes what stands in the fields. -/
theorem occurrences_expansion (w : World P) (type : TypeId) {fields : FieldMap}
    {entries : List (String × Json)}
    (h : entries.mapM fieldOutline? = some (fields.entries.map w.fieldOutline)) :
    (w.expansion type entries).occurrences =
      .expansion (w.outline type fields) :: memberOccurrences entries := by
  have hmembers : occurrence? [("name", .string (w.typeAt type).name),
      ("description", ((w.typeAt type).description.map Json.string).getD .null),
      ("kind", .string (w.typeAt type).kind.keyword), ("fields", .object entries)] =
        some (.expansion (w.outline type fields)) := by
    simp [occurrence?, outline?, optionalText?_getD, ClassKind.ofKeyword?_keyword, h, outline]
  rw [expansion, occurrences, hmembers]
  simp [memberOccurrences, occurrences, occurrences_getD, occurrence?_of_mapM h]

theorem typeExpr?_expansion (w : World P) (type : TypeId) (entries : List (String × Json)) :
    (w.expansion type entries).typeExpr? = some (.named (w.typeAt type).name) := by
  simp [expansion, typeExpr?]

end World

end DocumentTypes

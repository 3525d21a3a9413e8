import DocumentTypes.Schema

/-!
Drafts of schemas, as they are written on a workbench. A field of a draft may embed a schema that is
known there by name, a new one written in place, or one of the schemas around it, which is still
being defined.
-/

set_option autoImplicit false

namespace DocumentTypes.Workbench

/-- What a drafted field holds. -/
inductive DraftElement where
  | kind (tag : String)
  | reference (typeName : String)
  /-- A cyclic link to the schema that is `levels` levels out; the one of this field is at level
  zero. -/
  | up (levels : Nat)
  | shared (name : String)
  | cyclic (name : String)
  /-- A shared link to a new schema, which may get a name. Each path says whether it is an array. -/
  | inline (paths : List (String × Bool × DraftElement)) (name : Option String)

/-- Drafted paths: names, whether they are arrays, and what they hold. -/
abbrev DraftPaths := List (String × Bool × DraftElement)

/-- Schemas, and the names for them. -/
structure NamedSchemas where
  heap : SchemaHeap
  names : OrderedMap SchemaId

namespace NamedSchemas

/-- A place that is reserved for a schema that is being defined. -/
def reserve (s : NamedSchemas) : NamedSchemas :=
  { s with heap := s.heap.reserve }

/-- Puts a schema at its reserved place. -/
def define (s : NamedSchemas) (id : SchemaId) (paths : List (String × PathDescriptor SchemaLink)) :
    NamedSchemas :=
  { s with heap := s.heap.define id (.ofList paths) }

/-- Names a schema. -/
def name (s : NamedSchemas) (name : String) (id : SchemaId) : NamedSchemas :=
  { s with names := s.names.insert name id }

end NamedSchemas

mutual

/-- The element of a drafted field inside the schemas at `around`, innermost first. `none` stands
for a name or a level that does not exist. -/
def elementOf (around : List SchemaId) :
    DraftElement → NamedSchemas → Option (Element SchemaLink × NamedSchemas)
  | .kind tag, s => some (.primitive (.ofTag tag), s)
  | .reference typeName, s => some (.reference typeName, s)
  | .up levels, s => around[levels]?.map fun id ↦ (.embedded (.cyclic id), s)
  | .shared name, s => (s.names.lookup? name).map fun id ↦ (.embedded (.shared id), s)
  | .cyclic name, s => (s.names.lookup? name).map fun id ↦ (.embedded (.cyclic id), s)
  | .inline paths name, s =>
    let id := s.heap.nextId
    match pathsOf (id :: around) paths s.reserve with
    | none => none
    | some (descriptors, s) =>
      let s := s.define id descriptors
      let s := match name with
        | none => s
        | some name => s.name name id
      some (.embedded (.shared id), s)

/-- The descriptors of drafted paths, in order. -/
def pathsOf (around : List SchemaId) : List (String × Bool × DraftElement) → NamedSchemas →
    Option (List (String × PathDescriptor SchemaLink) × NamedSchemas)
  | [], s => some ([], s)
  | (field, isArray, element) :: rest, s =>
    match elementOf around element s with
    | none => none
    | some (element, s) =>
      match pathsOf around rest s with
      | none => none
      | some (descriptors, s) => some ((field, ⟨element, isArray⟩) :: descriptors, s)

end

/-- Defines a schema from a draft and names it. -/
def NamedSchemas.defineNamed (s : NamedSchemas) (name : String) (paths : DraftPaths) :
    Option (SchemaId × NamedSchemas) :=
  let id := s.heap.nextId
  match pathsOf [id] paths s.reserve with
  | none => none
  | some (descriptors, s) => some (id, (s.define id descriptors).name name id)

end DocumentTypes.Workbench

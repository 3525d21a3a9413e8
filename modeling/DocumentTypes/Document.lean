import DocumentTypes.Json
import DocumentTypes.OrderedMap
import DocumentTypes.Schema

/-!
Definitions documents as data: what each field of a schema is declared to be, and the declarations
of types.
-/

set_option autoImplicit false

namespace DocumentTypes

/-- The declared content of a field. -/
inductive FieldDef where
  | kind (tag : String)
  | embedded (schema : String)
  | reference (typeName : String)
  | array (elements : List FieldDef)

namespace FieldDef

mutual

/-- Reads a field. The forms are tried in order, and members that a form does not name are not
looked at. -/
def ofJson? : Json → Option FieldDef
  | .string tag => some (.kind tag)
  | .object members =>
    match (members.lookup "schema").bind Json.string?, (members.lookup "ref").bind Json.string? with
    | some schema, _ => some (.embedded schema)
    | none, some typeName => some (.reference typeName)
    | none, none => none
  | .array items => (listOfJson? items).map .array
  | _ => none

def listOfJson? : List Json → Option (List FieldDef)
  | [] => some []
  | item :: rest =>
    match ofJson? item, listOfJson? rest with
    | some field, some fields => some (field :: fields)
    | _, _ => none

end

/-- The element that a field that is no array declares. -/
def element? : FieldDef → Option (Element String)
  | kind tag => some (.primitive (.ofTag tag))
  | embedded schema => some (.embedded schema)
  | reference typeName => some (.reference typeName)
  | array _ => none

/-- The descriptor that a field declares, with schemas linked by name. An array declares one if it
has exactly one element, which is no array. -/
def descriptor? : FieldDef → Option (PathDescriptor String)
  | array [element] => element.element?.map (⟨·, true⟩)
  | array _ => none
  | field => field.element?.map (⟨·, false⟩)

end FieldDef

/-- The declaration of a type: the name of its schema, its class, and the overrides of its fields
as type expressions. -/
structure TypeDeclaration where
  name : String
  schema : String
  className : String
  description : Option String
  exclude : List String
  extend : OrderedMap String
  props : OrderedMap String

/-- The declared fields of schemas, by schema name. -/
abbrev DeclaredSchemas := OrderedMap (OrderedMap FieldDef)

structure Document where
  schemas : DeclaredSchemas
  types : List TypeDeclaration

/-- The values of the members, when every one of them can be read. -/
def OrderedMap.ofMembers? {α : Type} (read? : Json → Option α) (members : List (String × Json)) :
    Option (OrderedMap α) :=
  (members.mapM fun member ↦ (read? member.2).map (member.1, ·)).map .ofList

/-- The member `name`, read if it is present, and `absent` otherwise. -/
def Json.memberOr? {α : Type} (members : List (String × Json)) (name : String) (absent : α)
    (read? : Json → Option α) : Option α :=
  match members.lookup name with
  | none => some absent
  | some value => read? value

/-- Reads an object of texts. -/
def Json.texts? (value : Json) : Option (OrderedMap String) := do
  OrderedMap.ofMembers? Json.string? (← value.object?)

/-- Reads a declaration. -/
def TypeDeclaration.ofJson? (value : Json) : Option TypeDeclaration := do
  let members ← value.object?
  let name ← (members.lookup "name").bind Json.string?
  let schema ← (members.lookup "schema").bind Json.string?
  let className ← (members.lookup "class").bind Json.string?
  let description ← Json.memberOr? members "description" none fun
    | .null => some none
    | .string text => some (some text)
    | _ => none
  let exclude ← Json.memberOr? members "exclude" [] fun value ↦ do
    (← value.array?).mapM Json.string?
  let extend ← Json.memberOr? members "extend" ∅ Json.texts?
  let props ← Json.memberOr? members "props" ∅ Json.texts?
  return { name, schema, className, description, exclude, extend, props }

/-- Reads a document. -/
def Document.ofJson? (value : Json) : Option Document := do
  let members ← value.object?
  let schemas ← OrderedMap.ofMembers?
    (fun fields ↦ do OrderedMap.ofMembers? FieldDef.ofJson? (← fields.object?))
    (← (← members.lookup "schemas").object?)
  let types ← Json.memberOr? members "types" [] fun value ↦ do
    (← value.array?).mapM TypeDeclaration.ofJson?
  return { schemas, types }

end DocumentTypes

import DocumentTypes.Json.Pointer
import DocumentTypes.Json.Printer

/-!
Shapes of JSON values: what a value has to look like (`Shape.accepts`), where it deviates
(`Shape.violations`), and the description of a shape as a JSON Schema (`Shape.schema`).
-/

set_option autoImplicit false

namespace DocumentTypes

inductive Shape where
  /-- A text, which may be required to have a character. -/
  | text (isNonempty : Bool)
  /-- A list of items of one shape, which may be required to have exactly one item. -/
  | list (items : Shape) (isSingle : Bool)
  /-- An object with members of given names, some of them required, and no others. -/
  | record (members : List (String × Shape)) (required : List String)
  /-- An object with members of any names, all of one shape. -/
  | dictionary (values : Shape)
  /-- A value that has exactly one of the shapes. -/
  | oneOf (alternatives : List Shape)
  /-- A shape that is known under a name. -/
  | named (name : String) (shape : Shape)

/-- How a value deviates from a shape. -/
inductive Deviation where
  | wrongType (value : Json) (expected : String)
  | missingMember (name : String)
  | unexpectedMembers (names : List String)
  | tooShort (value : Json)
  | tooFewItems (value : Json)
  | tooManyItems (value : Json)
  | noAlternative (value : Json)
  | severalAlternatives (value : Json)
  | notSingleElement

def Deviation.message : Deviation → String
  | wrongType value expected => value.text ++ " is not of type \"" ++ expected ++ "\""
  | missingMember name => Json.quote name ++ " is a required property"
  | unexpectedMembers names =>
    "Additional properties are not allowed (" ++
      ", ".intercalate (names.map fun name ↦ "'" ++ name ++ "'") ++
      (if names.length = 1 then " was" else " were") ++ " unexpected)"
  | tooShort value => value.text ++ " is shorter than 1 character"
  | tooFewItems value => value.text ++ " has less than 1 item"
  | tooManyItems value => value.text ++ " has more than 1 item"
  | noAlternative value =>
    value.text ++ " is not valid under any of the schemas listed in the 'oneOf' keyword"
  | severalAlternatives value =>
    value.text ++ " is valid under more than one of the schemas listed in the 'oneOf' keyword"
  | notSingleElement => "array fields take exactly one non-array element"

/-- A deviation and the part of the document that deviates. -/
structure Violation where
  path : Json.Pointer
  deviation : Deviation

namespace Violation

def message (v : Violation) : String := v.deviation.message

/-- The violation on one line. -/
def text (v : Violation) : String := v.path.text ++ ": " ++ v.message

end Violation

namespace Shape

mutual

/-- Whether a value has a shape. -/
def accepts : Shape → Json → Bool
  | text isNonempty, value =>
    match value with
    | .string s => !isNonempty || !s.isEmpty
    | _ => false
  | list items isSingle, value =>
    match value with
    | .array values => values.all items.accepts && (!isSingle || values.length = 1)
    | _ => false
  | record members required, value =>
    match value with
    | .object entries =>
      required.all (fun name ↦ (entries.map Prod.fst).contains name) &&
        entries.all (fun entry ↦ acceptsMember members entry.1 entry.2)
    | _ => false
  | dictionary values, value =>
    match value with
    | .object entries => entries.all (fun entry ↦ values.accepts entry.2)
    | _ => false
  | oneOf alternatives, value => acceptCount alternatives value = 1
  | named _ shape, value => shape.accepts value

/-- Whether a member has a name that is known, and the shape for that name. -/
def acceptsMember : List (String × Shape) → String → Json → Bool
  | [], _, _ => false
  | (known, shape) :: rest, name, value =>
    if known = name then shape.accepts value else acceptsMember rest name value

/-- The number of the shapes that a value has. -/
def acceptCount : List Shape → Json → Nat
  | [], _ => 0
  | shape :: rest, value => (if shape.accepts value then 1 else 0) + acceptCount rest value

end

/-- The violation of a value that is of another type than the expected one. -/
def typeViolation (path : Json.Pointer) (value : Json) (expected : String) : List Violation :=
  [⟨path, .wrongType value expected⟩]

mutual

/-- The violations of a shape by a value and its parts. A value of the wrong type has no others;
neither has a value that has none of the alternatives. In an object, missing members come first,
then the violations of known members in document order, then all unexpected members at once. -/
def violations : Shape → Json.Pointer → Json → List Violation
  | text isNonempty, path, value =>
    match value with
    | .string s => if isNonempty && s.isEmpty then [⟨path, .tooShort value⟩] else []
    | _ => typeViolation path value "string"
  | list items isSingle, path, value =>
    match value with
    | .array values =>
      values.zipIdx.flatMap (fun item ↦ items.violations (path ++ [.item item.2]) item.1) ++
        (if isSingle && values.isEmpty then [⟨path, .tooFewItems value⟩] else []) ++
        (if isSingle && 1 < values.length then [⟨path, .tooManyItems value⟩] else [])
    | _ => typeViolation path value "array"
  | record members required, path, value =>
    match value with
    | .object entries =>
      let missing := required.filter (fun name ↦ !(entries.map Prod.fst).contains name)
      let unexpected := (entries.map Prod.fst).filter
        (fun name ↦ !(members.map Prod.fst).contains name)
      missing.map (fun name ↦ ⟨path, .missingMember name⟩) ++
        entries.flatMap (fun entry ↦ memberViolations members path entry.1 entry.2) ++
        (if unexpected.isEmpty then [] else [⟨path, .unexpectedMembers unexpected⟩])
    | _ => typeViolation path value "object"
  | dictionary values, path, value =>
    match value with
    | .object entries =>
      entries.flatMap (fun entry ↦ values.violations (path ++ [.member entry.1]) entry.2)
    | _ => typeViolation path value "object"
  | oneOf alternatives, path, value =>
    match acceptCount alternatives value with
    | 0 => [⟨path, .noAlternative value⟩]
    | 1 => []
    | _ => [⟨path, .severalAlternatives value⟩]
  | named _ shape, path, value => shape.violations path value

/-- The violations of a member of the object at `path`. One whose name is not known has none. -/
def memberViolations : List (String × Shape) → Json.Pointer → String → Json → List Violation
  | [], _, _, _ => []
  | (known, shape) :: rest, path, name, value =>
    if known = name then shape.violations (path ++ [.member name]) value
    else memberViolations rest path name value

end

mutual

/-- The keywords of a JSON Schema for a shape. A named shape is referred to. -/
def keywords : Shape → List (String × Json)
  | text isNonempty =>
    ("type", .string "string") ::
      (if isNonempty then [("minLength", .number (.integer 1))] else [])
  | list items isSingle =>
    ("type", .string "array") :: ("items", .object items.keywords) ::
      (if isSingle then
        [("minItems", .number (.integer 1)), ("maxItems", .number (.integer 1))] else [])
  | record members required =>
    [("type", .string "object"), ("properties", .object (memberSchemas members)),
      ("required", .array (required.map .string)), ("additionalProperties", .bool false)]
  | dictionary values =>
    [("type", .string "object"), ("additionalProperties", .object values.keywords)]
  | oneOf alternatives => [("oneOf", .array (schemas alternatives))]
  | named name _ => [("$ref", .string ("#/$defs/" ++ name))]

def memberSchemas : List (String × Shape) → List (String × Json)
  | [] => []
  | (name, shape) :: rest => (name, .object shape.keywords) :: memberSchemas rest

def schemas : List Shape → List Json
  | [] => []
  | shape :: rest => .object shape.keywords :: schemas rest

end

/-- A JSON Schema for a shape, with the shapes that it refers to. -/
def schema (shape : Shape) (definitions : List (String × Shape)) : Json :=
  .object (("$schema", .string "https://json-schema.org/draft/2020-12/schema") ::
    shape.keywords ++ [("$defs", .object (memberSchemas definitions))])

end Shape

end DocumentTypes

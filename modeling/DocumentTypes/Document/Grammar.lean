import DocumentTypes.Document.Shape

/-!
The shape of a definitions document: schemas by name, each with a descriptor for every field, and
declarations of types.
-/

set_option autoImplicit false

namespace DocumentTypes.Grammar

/-- A text of any length. -/
def anyText : Shape := .text false

/-- What a field holds: the name of a primitive kind, an embedded schema, or a reference. -/
def element : Shape :=
  .oneOf [.text true, .record [("schema", anyText)] ["schema"],
    .record [("ref", anyText)] ["ref"]]

/-- The descriptor of a field: an element, or a list of exactly one element. -/
def field : Shape :=
  .oneOf [.named "element" element, .list (.named "element" element) true]

/-- Type expressions by field name. -/
def typeMap : Shape :=
  .dictionary anyText

def declaration : Shape :=
  .record
    [("name", anyText), ("schema", anyText), ("class", anyText), ("description", anyText),
      ("exclude", .list anyText false), ("extend", .named "typeMap" typeMap),
      ("props", .named "typeMap" typeMap)]
    ["name", "schema", "class"]

def document : Shape :=
  .record
    [("schemas", .dictionary (.dictionary (.named "field" field))),
      ("types", .list (.named "declaration" declaration) false)]
    ["schemas"]

/-- The JSON Schema of definitions documents. -/
def documentSchema : Json :=
  document.schema
    [("element", element), ("field", field), ("typeMap", typeMap), ("declaration", declaration)]

/-- The violations of the document shape by a value. -/
def violations (value : Json) : List Violation :=
  document.violations [] value

end DocumentTypes.Grammar

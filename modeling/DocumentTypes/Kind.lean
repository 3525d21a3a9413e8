/-!
The closed vocabularies of the library: the kinds of primitive document fields, the built-in
scalars that they become (`PrimitiveKind.classify`), and the classes of generated types.
-/

set_option autoImplicit false

namespace DocumentTypes

/-- The kind of a primitive field of a document. A tag without a known meaning is kept. -/
inductive PrimitiveKind where
  | objectID
  | string
  | date
  | mixed
  | boolean
  | buffer
  | number
  | other (tag : String)
deriving DecidableEq, Repr

namespace PrimitiveKind

/-- Reads a tag. An identifier may be written in either spelling. -/
def ofTag (tag : String) : PrimitiveKind :=
  if tag = "ObjectID" ∨ tag = "ObjectId" then .objectID
  else if tag = "String" then .string
  else if tag = "Date" then .date
  else if tag = "Mixed" then .mixed
  else if tag = "Boolean" then .boolean
  else if tag = "Buffer" then .buffer
  else if tag = "Number" then .number
  else .other tag

def tag : PrimitiveKind → String
  | objectID => "ObjectID"
  | string => "String"
  | date => "Date"
  | mixed => "Mixed"
  | boolean => "Boolean"
  | buffer => "Buffer"
  | number => "Number"
  | other tag => tag

/-- Whether the tag has a known meaning. -/
def isKnown : PrimitiveKind → Bool
  | other _ => false
  | _ => true

end PrimitiveKind

/-- A built-in scalar of the generated types. -/
inductive Scalar where
  | string
  | int
  | float
  | boolean
  | id
deriving DecidableEq, Repr

namespace Scalar

def name : Scalar → String
  | string => "String"
  | int => "Int"
  | float => "Float"
  | boolean => "Boolean"
  | id => "ID"

def ofName? (name : String) : Option Scalar :=
  if name = "String" then some .string
  else if name = "Int" then some .int
  else if name = "Float" then some .float
  else if name = "Boolean" then some .boolean
  else if name = "ID" then some .id
  else none

theorem ofName?_name (s : Scalar) : ofName? s.name = some s := by
  cases s <;> decide

end Scalar

/-- The scalar that a primitive kind becomes: identifiers, dates and untyped values are text,
binary data is a flag, numbers are integers. -/
def PrimitiveKind.classify : PrimitiveKind → Option Scalar
  | objectID | string | date | mixed => some .string
  | boolean | buffer => some .boolean
  | number => some .int
  | other _ => none

/-- The class of a generated type. -/
inductive ClassKind where
  | object
  | inputObject
  | interface
  | union
  | enum
deriving DecidableEq, Repr

namespace ClassKind

def all : List ClassKind :=
  [.object, .inputObject, .interface, .union, .enum]

/-- The keyword that opens a definition of this class. -/
def keyword : ClassKind → String
  | object => "type"
  | inputObject => "input"
  | interface => "interface"
  | union => "union"
  | enum => "enum"

/-- Reads a short name or a class name. -/
def ofName? (name : String) : Option ClassKind :=
  if name ∈ ["object", "GraphQLObjectType"] then some .object
  else if name ∈ ["input", "input-object", "input_object", "GraphQLInputObjectType"] then
    some .inputObject
  else if name ∈ ["interface", "GraphQLInterfaceType"] then some .interface
  else if name ∈ ["union", "GraphQLUnionType"] then some .union
  else if name ∈ ["enum", "GraphQLEnumType"] then some .enum
  else none

end ClassKind

end DocumentTypes

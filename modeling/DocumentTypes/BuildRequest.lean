import DocumentTypes.Schema
import DocumentTypes.World

/-!
Requests to build a type from a schema, and the requests for the types nested in it. A nested type
is named after its parent and the field it is for (`subFieldName`); it keeps the class and the
exclusions of its parent and has no overrides.
-/

set_option autoImplicit false

namespace DocumentTypes

/-- The name of the type generated for a field of the type `parent`. -/
def subFieldName (parent field : String) : String :=
  parent ++ "_" ++ field

/-- The description of the type generated for a field of the type `parent`. -/
def subFieldDescription (parent field : String) : String :=
  parent ++ "'s '" ++ field ++ "' sub-field"

/-- A request to build the type `name` from a schema. The fields in `exclude` are left out, at
every depth. The fields of `extend` and then those of `props` are set on top of the generated
ones. -/
structure BuildRequest (P : Producers) where
  name : String
  description : Option String
  classKind : ClassKind
  schema : SchemaId
  exclude : List String
  extend : FieldSource (DeferredMap P)
  props : FieldSource (DeferredMap P)

namespace BuildRequest

variable {P : Producers}

/-- The request for the type nested in this one under `field`. -/
def nested (request : BuildRequest P) (field : String) (schema : SchemaId) : BuildRequest P where
  name := subFieldName request.name field
  description := some (subFieldDescription request.name field)
  classKind := request.classKind
  schema := schema
  exclude := request.exclude
  extend := .ready ∅
  props := .ready ∅

/-- The type that the request asks for, given its generated fields. -/
def type (request : BuildRequest P)
    (generated : FieldThunk (DeferredField P) (DeferredMap P)) : GeneratedType P where
  name := request.name
  description := request.description
  kind := request.classKind
  fields := (generated.merge request.extend).merge request.props

end BuildRequest

end DocumentTypes

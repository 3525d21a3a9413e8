import DocumentTypes.Kind

/-!
What can go wrong while a type is built or its fields are evaluated, and the wording.
-/

set_option autoImplicit false

namespace DocumentTypes

/-- An option that every build request has to provide. -/
inductive RequiredOption where
  | schema
  | name
deriving DecidableEq, Repr

def RequiredOption.text : RequiredOption → String
  | schema => "schema"
  | name => "name"

inductive BuildError where
  | missingOption (option : RequiredOption)
  | invalidClassKind (value : String)
  | unknownPrimitiveKind (kind : String)
  | duplicateName (name : String)
  | unresolvedReference (reference typeName : String)
  | selfTypeUnavailable (typeName : String)
  | embeddingCycle (path : List String)
deriving DecidableEq, Repr

/-- The names joined by arrows. -/
def arrowPath (path : List String) : String :=
  " -> ".intercalate path

namespace BuildError

def message : BuildError → String
  | missingOption option => "`" ++ option.text ++ "` option *should* be provided"
  | invalidClassKind value => "invalid `class` option specified: \"" ++ value ++ "\""
  | unknownPrimitiveKind kind => "unknown primitive object instance name: \"" ++ kind ++ "\""
  | duplicateName name =>
    "attempt to create type with already existing name \"" ++ name ++ "\""
  | unresolvedReference reference typeName =>
    "type with name \"" ++ reference ++ "\" doesn't exist, but was specified as population " ++
      "reference (while creating \"" ++ typeName ++ "\")"
  | selfTypeUnavailable typeName =>
    "fields of \"" ++ typeName ++ "\" were evaluated before the type itself was constructed"
  | embeddingCycle path => "embedded schema cycle while generating types: " ++ arrowPath path

def exitCode (_ : BuildError) : Nat := 2

end BuildError

/-- The scalar of a primitive kind, where a tag without a known meaning is an error. -/
def PrimitiveKind.scalar (kind : PrimitiveKind) : Except BuildError Scalar :=
  match kind.classify with
  | some scalar => .ok scalar
  | none => .error (.unknownPrimitiveKind kind.tag)

/-- Reads the name of a class, where an unknown name is an error. -/
def ClassKind.ofName (name : String) : Except BuildError ClassKind :=
  match ClassKind.ofName? name with
  | some kind => .ok kind
  | none => .error (.invalidClassKind name)

end DocumentTypes

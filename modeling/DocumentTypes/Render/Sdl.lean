import DocumentTypes.Traversal

/-!
Types as text in the schema definition language: one block for each type that is reachable from the
given ones (`World.sdl`).
-/

set_option autoImplicit false

namespace DocumentTypes

namespace World

variable {P : Producers} {σ : Type}

/-- A line that closes with a line break. -/
def line (text : String) : String := text ++ "\n"

/-- The description in front of a type. -/
def descriptionBlock : Option String → String
  | none => ""
  | some description => "\"\"\"\n" ++ description ++ "\n\"\"\"\n"

/-- The distinct names of the innermost named types of the fields, in order. -/
def memberNames (w : World P) (fields : FieldMap) : List String :=
  ((namedTypes fields).map fun type ↦ (w.typeAt type).name).eraseDups

/-- The lines of one field with its type. -/
def fieldLines (w : World P) (name : String) (spec : FieldSpec) : String :=
  (match spec.description with
    | none => ""
    | some description => line ("  \"" ++ description ++ "\"")) ++
  line ("  " ++ name ++ ": " ++ w.typeText spec.type)

/-- The definition of a type with the given fields. -/
def sdlBlock (w : World P) (type : TypeId) (fields : FieldMap) : String :=
  let t := w.typeAt type
  descriptionBlock t.description ++
    match t.kind with
    | .union => line ("union " ++ t.name ++ " = " ++ " | ".intercalate (w.memberNames fields))
    | .enum =>
      line ("enum " ++ t.name ++ " \x7b") ++
        String.join (fields.keys.map fun name ↦ line ("  " ++ name)) ++ line "\x7d"
    | kind =>
      line (kind.keyword ++ " " ++ t.name ++ " \x7b") ++
        String.join (fields.entries.map fun field ↦ w.fieldLines field.1 field.2) ++ line "\x7d"

/-- The definitions of the given types and of every type that is reachable from them, each once:
the given ones first, then the others in the order in which they are met. -/
def sdl (w : World P) (outside : Outside P σ) (roots : List TypeId) (s : σ) :
    Except BuildError String × σ :=
  match w.breadthFirst outside roots [] s with
  | (.error e, s) => (.error e, s)
  | (.ok visited, s) =>
    (.ok ("\n".intercalate (visited.map fun visit ↦ w.sdlBlock visit.1 visit.2)), s)

end World

end DocumentTypes

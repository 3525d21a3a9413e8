import DocumentTypes.World

/-!
Terms for the types of fields, as they are written on a workbench. A term may depend on types held
there under labels, on registries, and on counters that count how often they are evaluated; a
recorded term is a producer from outside (`Workbench.outside`).
-/

set_option autoImplicit false

namespace DocumentTypes.Workbench

/-- What terms depend on: the held types by label, and the counters. -/
structure Desk where
  labels : OrderedMap TypeId
  counters : OrderedMap Nat

/-- A term for a type. A registry that a lookup does not find holds nothing. -/
inductive Term where
  | scalar (scalar : Scalar)
  | list (element : Term)
  | held (label : String)
  | lookup (registry : Option RegistryId) (name typeName : String) (isOptional : Bool)
  | fail (kind : String)
  | count (counter : String)

/-- A term for a field. -/
structure FieldTerm where
  type : Term
  description : Option String

/-- Terms for fields, by name. -/
abbrev MapTerm := List (String × FieldTerm)

/-- The producers of a workbench: recorded terms. -/
def producers : Producers := ⟨FieldTerm, MapTerm⟩

/-- The types that live on a workbench. -/
abbrev Types := World producers

/-- The type of a term, and the note that a counter leaves. -/
structure Evaluated where
  type : TypeRef
  note : Option String

namespace Desk

/-- The type held under a label. -/
def held (desk : Desk) (label : String) : Except BuildError TypeId :=
  match desk.labels.lookup? label with
  | some type => .ok type
  | none => .error (.selfTypeUnavailable label)

/-- Counts one evaluation. -/
def tick (desk : Desk) (counter : String) : Nat × Desk :=
  let count := (desk.counters.lookup? counter).getD 0 + 1
  (count, { desk with counters := desk.counters.insert counter count })

end Desk

/-- Evaluates a term. An optional lookup that finds nothing has no type. -/
def Term.evaluate (types : Types) : Term → Desk → Except BuildError (Option Evaluated) × Desk
  | .scalar s, desk => (.ok (some ⟨.scalar s, none⟩), desk)
  | .list element, desk =>
    match element.evaluate types desk with
    | (.error e, desk) => (.error e, desk)
    | (.ok none, desk) => (.ok none, desk)
    | (.ok (some inner), desk) => (.ok (some ⟨.list inner.type, inner.note⟩), desk)
  | .held label, desk => ((desk.held label).map fun type ↦ some ⟨.named type, none⟩, desk)
  | .lookup registry name typeName isOptional, desk =>
    match registry.bind fun id ↦ types.lookup id name with
    | some type => (.ok (some ⟨.named type, none⟩), desk)
    | none =>
      if isOptional then (.ok none, desk) else (.error (.unresolvedReference name typeName), desk)
  | .fail kind, desk => (.error (.unknownPrimitiveKind kind), desk)
  | .count counter, desk =>
    let (n, desk) := desk.tick counter
    (.ok (some ⟨.scalar .int, some ("call " ++ toString n)⟩), desk)

/-- Evaluates a term for a field. A note takes the place of the description. -/
def FieldTerm.evaluate (types : Types) (term : FieldTerm) (desk : Desk) :
    Except BuildError (Option FieldSpec) × Desk :=
  match term.type.evaluate types desk with
  | (.error e, desk) => (.error e, desk)
  | (.ok result, desk) =>
    (.ok (result.map fun r ↦ ⟨r.type, r.note.or term.description⟩), desk)

/-- Evaluates a term for a single field, which is a text when it has no type. -/
def FieldTerm.field (types : Types) (term : FieldTerm) (desk : Desk) :
    Except BuildError FieldSpec × Desk :=
  match term.evaluate types desk with
  | (.error e, desk) => (.error e, desk)
  | (.ok spec, desk) => (.ok (spec.getD (.ofType (.scalar .string))), desk)

/-- Evaluates terms in order, on top of `fields`. A field without a type is left out, and the first
term that fails ends it. -/
def MapTerm.evaluateOnto (types : Types) (fields : FieldMap) :
    MapTerm → Desk → Except BuildError FieldMap × Desk
  | [], desk => (.ok fields, desk)
  | (name, term) :: rest, desk =>
    match term.evaluate types desk with
    | (.error e, desk) => (.error e, desk)
    | (.ok none, desk) => evaluateOnto types fields rest desk
    | (.ok (some spec), desk) => evaluateOnto types (fields.insert name spec) rest desk

/-- How recorded terms run. -/
def outside : Outside producers Desk where
  field := fun term types ↦ FieldTerm.field types term
  fieldMap := fun terms types ↦ MapTerm.evaluateOnto types ∅ terms

end DocumentTypes.Workbench

import DocumentTypes.Build
import DocumentTypes.Document.Grammar
import DocumentTypes.Json.Reader
import DocumentTypes.Materialize

/-!
Loaded definitions: the schemas of a document, in document order, and its type declarations. Each
declaration is turned into a build request when it is built, so the errors of a declaration leave
the types of those before it in the registry (`Definitions.buildAll`).
-/

set_option autoImplicit false

namespace DocumentTypes

/-- Reads an expression. The error has the whole text, as it is written. -/
def TypeExpr.parse (text : String) : Except LoadError TypeExpr :=
  match ofText? text with
  | none => .error (.invalidTypeExpr text)
  | some expr => .ok expr

theorem TypeExpr.parse_eq_ok_iff {text : String} {expr : TypeExpr} :
    parse text = .ok expr ↔ ofText? text = some expr := by
  unfold parse
  cases ofText? text <;> simp

theorem TypeExpr.parse_eq_error_iff {text : String} {e : LoadError} :
    parse text = .error e ↔ ofText? text = none ∧ e = .invalidTypeExpr text := by
  unfold parse
  cases ofText? text <;> simp [eq_comm]

structure Definitions where
  schemas : OrderedMap SchemaId
  types : List TypeDeclaration

namespace Definitions

/-- Loads a parsed document, adding its schemas to a heap. -/
def ofJson (heap : SchemaHeap) (value : Json) : Except LoadError (Definitions × SchemaHeap) :=
  match Grammar.violations value with
  | [] =>
    match Document.ofJson? value with
    | none => .error .undecodable
    | some document =>
      let names := document.schemas.keys
      match materializeAll document.schemas names ⟨heap, ∅⟩ with
      | .error e => .error e
      | .ok m =>
        let schemas := names.filterMap fun name ↦ (m.built.lookup? name).map (name, ·)
        .ok (⟨.ofList schemas, document.types⟩, m.heap)
  | violations => .error (.invalidDocument violations)

/-- A document loads to definitions when something is seen in what it loads to. -/
theorem exists_of_map_ofJson {heap : SchemaHeap} {value : Json} {α : Type}
    {view : Definitions × SchemaHeap → α} {seen : α}
    (h : (ofJson heap value).map view = .ok seen) :
    ∃ definitions heap', ofJson heap value = .ok (definitions, heap') ∧
      view (definitions, heap') = seen := by
  cases hload : ofJson heap value with
  | error e => exact absurd (hload ▸ h) (by simp [Except.map])
  | ok loaded => exact ⟨loaded.1, loaded.2, rfl, Except.ok.inj (hload ▸ h)⟩

/-- Loads the text of a document, adding its schemas to a heap. -/
def ofText (heap : SchemaHeap) (text : String) : Except LoadError (Definitions × SchemaHeap) :=
  match Json.read text with
  | .error e => .error (.invalidJson e)
  | .ok value => ofJson heap value

section Request

variable {P : Producers}

/-- Reads the type expressions of overrides, in order. The first that cannot be read is an error. -/
def readTypeMap : List (String × String) → Except LoadError (List (String × TypeExpr))
  | [] => .ok []
  | (field, text) :: rest =>
    match TypeExpr.parse text with
    | .error e => .error e
    | .ok expr => (readTypeMap rest).map ((field, expr) :: ·)

/-- Overrides as a source of fields, whose named types are looked up when it is resolved. -/
def typeMapSource (overrides : OrderedMap String) (registry : RegistryId) (typeName : String) :
    Except LoadError (FieldSource (DeferredMap P)) :=
  if overrides.isEmpty then .ok (.ready ∅)
  else (readTypeMap overrides.entries).map fun entries ↦
    .deferred (.typeMap entries registry typeName)

/-- The build request of a declaration, for a registry. The schema is checked first, then the
class, then the overrides. -/
def request (definitions : Definitions) (declaration : TypeDeclaration) (registry : RegistryId) :
    Except LoadError (BuildRequest P) :=
  match definitions.schemas.lookup? declaration.schema with
  | none => .error (.unknownSchema declaration.schema (.declaration declaration.name))
  | some schema =>
    match ClassKind.ofName declaration.className with
    | .error e => .error (.build e)
    | .ok classKind =>
      match typeMapSource declaration.extend registry declaration.name with
      | .error e => .error e
      | .ok extend =>
        match typeMapSource declaration.props registry declaration.name with
        | .error e => .error e
        | .ok props =>
          .ok {
            name := declaration.name
            description := declaration.description
            classKind := classKind
            schema := schema
            exclude := declaration.exclude
            extend := extend
            props := props }

/-- Builds one declaration. -/
def buildOne (definitions : Definitions) (heap : SchemaHeap) (registry : RegistryId)
    (declaration : TypeDeclaration) (w : World P) : Except LoadError TypeId × World P :=
  match definitions.request declaration registry with
  | .error e => (.error e, w)
  | .ok request =>
    match w.build heap registry request with
    | (.error e, w) => (.error (.build e), w)
    | (.ok type, w) => (.ok type, w)

/-- Builds declarations in order. The first that fails ends it. -/
def buildEach (definitions : Definitions) (heap : SchemaHeap) (registry : RegistryId) :
    List TypeDeclaration → World P → Except LoadError (List TypeId) × World P
  | [], w => (.ok [], w)
  | declaration :: rest, w =>
    match definitions.buildOne heap registry declaration w with
    | (.error e, w) => (.error e, w)
    | (.ok type, w) =>
      match definitions.buildEach heap registry rest w with
      | (.error e, w) => (.error e, w)
      | (.ok types, w) => (.ok (type :: types), w)

/-- Builds every declared type, in document order. -/
def buildAll (definitions : Definitions) (heap : SchemaHeap) (registry : RegistryId)
    (w : World P) : Except LoadError (List TypeId) × World P :=
  definitions.buildEach heap registry definitions.types w

end Request

end Definitions

end DocumentTypes

import DocumentTypes.Fields
import DocumentTypes.TypeExpr

/-!
The world of generated types: the types themselves, in the order of their construction, and the
registries that hold them by name. The fields of a type are evaluated in a world
(`World.fields`), so a field may depend on types that did not exist when it was recorded.
-/

set_option autoImplicit false

namespace DocumentTypes

/-- The place of a registry in its world. -/
abbrev RegistryId := Nat

/-- The kinds of producers that come from outside the library: of single fields, and of whole
field maps. -/
structure Producers where
  Field : Type
  Map : Type

/-- No producers from outside. -/
def Producers.none : Producers := ⟨Empty, Empty⟩

/-- A field that is left to be produced: the type that a registry holds under a name when the field
is evaluated, the type that owns the field, or what a producer from outside yields. `typeName` is
the type that an error names. -/
inductive DeferredField (P : Producers) where
  | reference (registry : RegistryId) (name typeName : String)
  | itself (isArray : Bool) (typeName : String)
  | custom (producer : P.Field)

/-- A field map that is left to be produced: type expressions that are resolved in a registry, or
what a producer from outside yields. -/
inductive DeferredMap (P : Producers) where
  | typeMap (entries : List (String × TypeExpr)) (registry : RegistryId) (typeName : String)
  | custom (producer : P.Map)

/-- A named type. Its fields are kept as recorded and evaluated on demand. -/
structure GeneratedType (P : Producers) where
  name : String
  description : Option String
  kind : ClassKind
  fields : FieldThunk (DeferredField P) (DeferredMap P)

instance {P : Producers} : Inhabited (GeneratedType P) :=
  ⟨⟨"", none, .object, []⟩⟩

/-- Types by name, in registration order. A name is registered once. -/
abbrev Registry := OrderedMap TypeId

/-- Registers `type` under a name that is not in use. -/
def Registry.register (registry : Registry) (name : String) (type : TypeId) :
    Except BuildError Registry :=
  if registry.contains name then .error (.duplicateName name) else .ok (registry.insert name type)

/-- Every type constructed so far, and the registries. A registry that nothing holds any more is
gone: it has an empty slot. -/
structure World (P : Producers) where
  types : Array (GeneratedType P)
  registries : Array (Option Registry)

/-- How producers from outside run, in a world and on a state of their own. -/
structure Outside (P : Producers) (σ : Type) where
  field : P.Field → World P → σ → Except BuildError FieldSpec × σ
  fieldMap : P.Map → World P → σ → Except BuildError FieldMap × σ

def Outside.none : Outside .none Unit where
  field := fun producer ↦ nomatch producer
  fieldMap := fun producer ↦ nomatch producer

namespace World

variable {P : Producers} {σ : Type}

def empty : World P := ⟨#[], #[]⟩

instance : Inhabited (World P) := ⟨empty⟩

def typeAt (w : World P) (type : TypeId) : GeneratedType P :=
  w.types[type]?.getD default

/-- The text of a field's type: the name, with a pair of brackets for each list. -/
def typeText (w : World P) : TypeRef → String
  | .scalar s => s.name
  | .list element => "[" ++ w.typeText element ++ "]"
  | .named type => (w.typeAt type).name

/-- A living registry. -/
def registry? (w : World P) (id : RegistryId) : Option Registry :=
  (w.registries[id]?).join

/-- The registry at a place; an empty one when it is gone. -/
def registryAt (w : World P) (id : RegistryId) : Registry :=
  (w.registry? id).getD ∅

/-- The type that a registry holds under a name. A registry that is gone holds nothing. -/
def lookup (w : World P) (id : RegistryId) (name : String) : Option TypeId :=
  (w.registryAt id).lookup? name

/-- The place that the next registry gets. -/
def nextRegistry (w : World P) : RegistryId :=
  w.registries.size

/-- Adds an empty registry. -/
def addRegistry (w : World P) : World P :=
  { w with registries := w.registries.push (some ∅) }

def dropRegistry (w : World P) (id : RegistryId) : World P :=
  { w with registries := w.registries.setIfInBounds id none }

/-- The place that the next type gets. -/
def nextType (w : World P) : TypeId :=
  w.types.size

/-- Adds a type at `nextType`. -/
def addType (w : World P) (type : GeneratedType P) : World P :=
  { w with types := w.types.push type }

/-- Registers a type in a registry. A refused registration changes nothing. -/
def register (w : World P) (id : RegistryId) (name : String) (type : TypeId) :
    Except BuildError (World P) :=
  match (w.registryAt id).register name type with
  | .error e => .error e
  | .ok registry => .ok { w with registries := w.registries.setIfInBounds id (some registry) }

/-- Resolves a type expression in a registry. `typeName` is the type that an error names. -/
def resolve (w : World P) (registry : RegistryId) (typeName : String) :
    TypeExpr → Except BuildError TypeRef
  | .scalar s => .ok (.scalar s)
  | .list element => (w.resolve registry typeName element).map .list
  | .named name =>
    match w.lookup registry name with
    | some type => .ok (.named type)
    | none => .error (.unresolvedReference name typeName)

/-- Resolves type expressions in order. The first that fails ends it. -/
def resolveAll (w : World P) (registry : RegistryId) (typeName : String) :
    List (String × TypeExpr) → Except BuildError (List (String × FieldSpec))
  | [] => .ok []
  | (field, expr) :: rest =>
    match w.resolve registry typeName expr with
    | .error e => .error e
    | .ok type => (w.resolveAll registry typeName rest).map ((field, .ofType type) :: ·)

/-- What a deferred field is now. `owner` is the type whose field it is, once there is one. -/
def produceField (w : World P) (outside : Outside P σ) (owner : Option TypeId) :
    DeferredField P → σ → Except BuildError FieldSpec × σ
  | .reference registry name typeName, s =>
    match w.lookup registry name with
    | some type => (.ok (.ofType (.named type)), s)
    | none => (.error (.unresolvedReference name typeName), s)
  | .itself isArray typeName, s =>
    match owner with
    | some type => (.ok (.ofType (.listIf isArray (.named type))), s)
    | none => (.error (.selfTypeUnavailable typeName), s)
  | .custom producer, s => outside.field producer w s

/-- What a deferred field map is now. -/
def produceMap (w : World P) (outside : Outside P σ) :
    DeferredMap P → σ → Except BuildError FieldMap × σ
  | .typeMap entries registry typeName, s =>
    ((w.resolveAll registry typeName entries).map .ofList, s)
  | .custom producer, s => outside.fieldMap producer w s

/-- How the producers of a type's fields run in a world. -/
def runner (w : World P) (outside : Outside P σ) (owner : Option TypeId) :
    Runner (DeferredField P) (DeferredMap P) σ where
  field := w.produceField outside owner
  fieldMap := w.produceMap outside

/-- The fields of a type, evaluated now. -/
def fields (w : World P) (outside : Outside P σ) (type : TypeId) (s : σ) :
    Except BuildError FieldMap × σ :=
  (w.typeAt type).fields.evaluate (w.runner outside (some type)) s

/-- The types among `types` whose fields cannot be evaluated, with the errors. -/
def failuresOf (w : World P) (outside : Outside P σ) :
    List TypeId → σ → List (String × BuildError) × σ
  | [], s => ([], s)
  | type :: rest, s =>
    match w.fields outside type s with
    | (.ok _, s) => w.failuresOf outside rest s
    | (.error e, s) =>
      let (failures, s) := w.failuresOf outside rest s
      (((w.typeAt type).name, e) :: failures, s)

/-- Evaluates the fields of every type of a registry, in registration order, and collects the
failures. -/
def failures (w : World P) (outside : Outside P σ) (id : RegistryId) (s : σ) :
    List (String × BuildError) × σ :=
  w.failuresOf outside (w.registryAt id).values s

end World

end DocumentTypes

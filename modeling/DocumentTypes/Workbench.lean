import DocumentTypes.Definitions
import DocumentTypes.Workbench.Draft
import DocumentTypes.Workbench.Term

/-!
A workbench: schemas, registries, types, recorded fields and loaded definitions that are held under
names. What no name holds any more is given up (`Workbench.settle`): a schema that no name, no
definitions and no living schema holds, and a registry without a handle.
-/

set_option autoImplicit false

namespace DocumentTypes

/-- Everything that is held under a name, and the worlds that it lives in. -/
structure Workbench where
  types : Workbench.Types
  schemas : Workbench.NamedSchemas
  /-- Handles that keep their registries alive. -/
  handles : OrderedMap RegistryId
  /-- Handles that do not. -/
  weakHandles : OrderedMap RegistryId
  thunks : OrderedMap
    (FieldThunk (DeferredField Workbench.producers) (DeferredMap Workbench.producers))
  definitions : OrderedMap Definitions
  desk : Workbench.Desk

namespace Workbench

/-- A workbench with nothing on it. -/
def empty : Workbench where
  types := .empty
  schemas := ⟨.empty, ∅⟩
  handles := ∅
  weakHandles := ∅
  thunks := ∅
  definitions := ∅
  desk := ⟨∅, ∅⟩

instance : Inhabited Workbench := ⟨empty⟩

def heap (b : Workbench) : SchemaHeap := b.schemas.heap

/-- The schemas that names and definitions hold. -/
def heldSchemas (b : Workbench) : List SchemaId :=
  b.schemas.names.values ++ b.definitions.values.flatMap fun d ↦ d.schemas.values

/-- Gives up what nothing holds any more. -/
def settle (b : Workbench) : Workbench :=
  { b with
    schemas := { b.schemas with heap := b.heap.retain b.heldSchemas }
    types := (List.range b.types.registries.size).foldl
      (fun w id ↦ if b.handles.values.contains id then w else w.dropRegistry id) b.types }

/-- The registry of a handle of either kind. -/
def registryOf (b : Workbench) (name : String) : Option RegistryId :=
  (b.handles.lookup? name).or (b.weakHandles.lookup? name)

/-- The names of a schema, sorted. -/
def schemaNames (names : OrderedMap SchemaId) (id : SchemaId) : List String :=
  ((names.entries.filter fun entry ↦ entry.2 = id).map Prod.fst).mergeSort fun a b ↦ a ≤ b

/-- The labels of a type, sorted. -/
def labelsOf (b : Workbench) (type : TypeId) : List String :=
  ((b.desk.labels.entries.filter fun entry ↦ entry.2 = type).map Prod.fst).mergeSort
    fun a b ↦ a ≤ b

/-- Holds a type under a label. -/
def hold (b : Workbench) (label : String) (type : TypeId) : Workbench :=
  { b with desk := { b.desk with labels := b.desk.labels.insert label type } }

/-- Holds types under a label with their positions appended, from `start` on. -/
def holdAll (b : Workbench) (label : String) (start : Nat) : List TypeId → Workbench
  | [] => b
  | type :: rest => (b.hold (label ++ toString start) type).holdAll label (start + 1) rest

/-! ### Views -/

/-- A type as it is shown. -/
structure TypeView where
  name : String
  kind : ClassKind
  description : Option String
  labels : List String

/-- A field as it is shown, with its innermost named type. -/
structure FieldView where
  name : String
  typeText : String
  description : Option String
  type : Option TypeView

/-- A link as it is shown: the names are those of the very schema that it designates. -/
structure LinkView where
  isShared : Bool
  isAlive : Bool
  names : List String

/-- Paths as they are shown. -/
abbrev PathsView := List (String × PathDescriptor LinkView)

def typeView (b : Workbench) (type : TypeId) : TypeView :=
  let t := b.types.typeAt type
  ⟨t.name, t.kind, t.description, b.labelsOf type⟩

/-- The text of a type, and its innermost named type. -/
def typeRefView (b : Workbench) (type : TypeRef) : String × Option TypeView :=
  (b.types.typeText type, type.named?.map b.typeView)

def fieldsView (b : Workbench) (fields : FieldMap) : List FieldView :=
  fields.entries.map fun field ↦
    let (text, type) := b.typeRefView field.2.type
    ⟨field.1, text, field.2.description, type⟩

/-- A link, with names from `names`. -/
def linkView (b : Workbench) (names : OrderedMap SchemaId) (link : SchemaLink) : LinkView where
  isShared := match link with
    | .shared _ => true
    | .cyclic _ => false
  isAlive := b.heap.isAlive link.target
  names := schemaNames names link.target

/-- The paths of a schema, with names from `names`. -/
def pathsView (b : Workbench) (names : OrderedMap SchemaId) (id : SchemaId) : PathsView :=
  (b.heap.paths id).map fun path ↦ (path.1, path.2.mapLink (b.linkView names))

end Workbench

end DocumentTypes

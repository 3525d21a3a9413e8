import DocumentTypes.BuildError
import DocumentTypes.OrderedMap

/-!
Field maps and how they are produced. A `FieldThunk` records assignments of fields, some of which
are known and some of which are left to producers, and composes them into one map when it is
evaluated. Producers are run in the order in which they were recorded, at every evaluation, and may
read and change a state outside the thunk.
-/

set_option autoImplicit false

namespace DocumentTypes

/-- The place of a generated type in its world. -/
abbrev TypeId := Nat

/-- The type of a field. Named types are equal when they are the same generated type. -/
inductive TypeRef where
  | scalar (scalar : Scalar)
  | list (element : TypeRef)
  | named (type : TypeId)
deriving DecidableEq, Repr

namespace TypeRef

/-- The innermost named type, if the innermost type is named. -/
def named? : TypeRef → Option TypeId
  | scalar _ => none
  | list element => element.named?
  | named type => some type

/-- The type, or a list of it. -/
def listIf (isList : Bool) (type : TypeRef) : TypeRef :=
  if isList then .list type else type

end TypeRef

structure FieldSpec where
  type : TypeRef
  description : Option String
deriving DecidableEq, Repr

namespace FieldSpec

/-- A field without a description. -/
def ofType (type : TypeRef) : FieldSpec := ⟨type, none⟩

end FieldSpec

/-- The fields of a type, in the order in which they were first assigned. -/
abbrev FieldMap := OrderedMap FieldSpec

/-- A whole field map: a ready one, or one that a producer of kind `M` yields on demand. -/
inductive FieldSource (M : Type) where
  | ready (fields : FieldMap)
  | deferred (producer : M)

/-- One recorded assignment: a known field, a field that a producer of kind `F` yields, or a whole
map. -/
inductive FieldLayer (F M : Type) where
  | field (name : String) (spec : FieldSpec)
  | deferred (name : String) (producer : F)
  | merge (source : FieldSource M)

/-- How producers run on a state of type `σ`. -/
structure Runner (F M σ : Type) where
  field : F → σ → Except BuildError FieldSpec × σ
  fieldMap : M → σ → Except BuildError FieldMap × σ

/-- The map of a source. -/
def FieldSource.resolve {F M σ : Type} (run : Runner F M σ) :
    FieldSource M → σ → Except BuildError FieldMap × σ
  | .ready fields, s => (.ok fields, s)
  | .deferred producer, s => run.fieldMap producer s

/-- Recorded assignments, oldest first. -/
abbrev FieldThunk (F M : Type) := List (FieldLayer F M)

namespace FieldThunk

variable {F M σ : Type}

/-- The assignments of the layers, in order, on top of `fields`. The first failing producer ends
the evaluation. -/
def evaluateOnto (run : Runner F M σ) (fields : FieldMap) :
    FieldThunk F M → σ → Except BuildError FieldMap × σ
  | [], s => (.ok fields, s)
  | .field name spec :: rest, s => evaluateOnto run (fields.insert name spec) rest s
  | .deferred name producer :: rest, s =>
    match run.field producer s with
    | (.error e, s) => (.error e, s)
    | (.ok spec, s) => evaluateOnto run (fields.insert name spec) rest s
  | .merge source :: rest, s =>
    match source.resolve run s with
    | (.error e, s) => (.error e, s)
    | (.ok more, s) => evaluateOnto run (fields.insertAll more.entries) rest s

/-- Composes the layers into one map. -/
def evaluate (run : Runner F M σ) (thunk : FieldThunk F M) (s : σ) :
    Except BuildError FieldMap × σ :=
  evaluateOnto run ∅ thunk s

/-- Records a known field. -/
def setField (thunk : FieldThunk F M) (name : String) (spec : FieldSpec) : FieldThunk F M :=
  thunk ++ [.field name spec]

/-- Records a field that is produced at every evaluation. -/
def setDeferred (thunk : FieldThunk F M) (name : String) (producer : F) : FieldThunk F M :=
  thunk ++ [.deferred name producer]

/-- Records a whole map. -/
def merge (thunk : FieldThunk F M) (source : FieldSource M) : FieldThunk F M :=
  thunk ++ [.merge source]

end FieldThunk

end DocumentTypes

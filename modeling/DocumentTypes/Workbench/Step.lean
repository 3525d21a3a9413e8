import DocumentTypes.Render.Sdl
import DocumentTypes.Render.Snapshot
import DocumentTypes.Workbench

/-!
Steps at a workbench and their answers. A step that fails answers with its error; what it built
before it failed stays.
-/

set_option autoImplicit false

namespace DocumentTypes.Workbench

/-- A term as it is written: its registry is given by the name of a handle. -/
inductive WrittenTerm where
  | scalar (scalar : Scalar)
  | list (element : WrittenTerm)
  | held (label : String)
  | lookup (handle name typeName : String) (isOptional : Bool)
  | fail (kind : String)
  | count (counter : String)

structure WrittenField where
  type : WrittenTerm
  description : Option String

abbrev WrittenMap := List (String × WrittenField)

/-- A whole field map as it is written: evaluated now, or recorded. -/
inductive WrittenSource where
  | now (fields : WrittenMap)
  | recorded (fields : WrittenMap)

structure BuildStep where
  handle : String
  name : String
  className : String
  schema : String
  label : String
  description : Option String
  exclude : List String
  extend : Option WrittenSource
  props : Option WrittenSource

structure ConstructStep where
  thunk : String
  name : String
  className : String
  description : Option String
  label : String

inductive Step where
  | schema (name : String) (paths : DraftPaths)
  | dropSchema (name : String)
  | registry (handle : String) (cloneOf : Option String)
  | dropRegistry (handle : String)
  | weak (handle registry : String)
  | weakLookup (handle name : String)
  | build (step : BuildStep)
  | register (handle name label : String)
  | lookup (handle name : String) (label : Option String)
  | state (handle : String)
  | evaluateAll (handle : String)
  | dropType (label : String)
  | fields (label : String)
  | json (label : String)
  | sdl (labels : List String)
  | thunk (name : String)
  | setField (thunk name : String) (field : WrittenField)
  | setDeferred (thunk name : String) (field : WrittenField)
  | extend (thunk : String) (source : WrittenSource)
  | evaluate (thunk : String)
  | construct (step : ConstructStep)
  | resolve (source : WrittenSource)
  | typeRef (term : WrittenTerm)
  | equal (left right : WrittenTerm)
  | resolveExpr (expr handle typeName : String)
  | load (name document : String)
  | request (definitions handle : String) (index : Nat)
  | buildAll (definitions handle label : String)

/-- A request for a declared type as it is shown. -/
structure RequestView where
  name : String
  description : Option String
  kind : ClassKind
  exclude : List String
  schema : List String
  extend : Except BuildError (List FieldView)
  props : Except BuildError (List FieldView)

inductive Answer where
  | refused (error : LoadError)
  /-- A name in the step is not known. -/
  | misread
  | done
  | flag (value : Bool)
  | names (names : List String)
  | schema (paths : PathsView)
  | type (type : TypeView)
  | types (types : List TypeView)
  | found (type : Option TypeView)
  | weakFound (type : Option TypeView) (names : Option (List String))
  | state (names : List String) (types : List TypeView)
  | failures (failures : List (String × BuildError))
  | fields (fields : List FieldView)
  | text (text : String)
  | size (size : Nat)
  | typeRef (text : String) (type : Option TypeView)
  | definitions (schemas : List (String × PathsView)) (types : List TypeDeclaration)
  | request (request : RequestView)

/-- The answer to a step that fails to build. -/
def Answer.failed (e : BuildError) : Answer := .refused (.build e)

/-- The term with its registry looked up. -/
def WrittenTerm.read (b : Workbench) : WrittenTerm → Term
  | .scalar s => .scalar s
  | .list element => .list (element.read b)
  | .held label => .held label
  | .lookup handle name typeName isOptional =>
    .lookup (b.registryOf handle) name typeName isOptional
  | .fail kind => .fail kind
  | .count counter => .count counter

def WrittenField.read (b : Workbench) (field : WrittenField) : FieldTerm :=
  ⟨field.type.read b, field.description⟩

def WrittenMap.read (b : Workbench) (fields : WrittenMap) : MapTerm :=
  fields.map fun field ↦ (field.1, field.2.read b)

/-- Something that is done with the desk while the rest of the workbench stays as it is. -/
def onDesk {α : Type} (b : Workbench) (act : Desk → Except BuildError α × Desk)
    (next : Workbench → α → Answer × Workbench) : Answer × Workbench :=
  match act b.desk with
  | (.error e, desk) => (.failed e, { b with desk })
  | (.ok value, desk) => next { b with desk } value

/-- The source that is written. A map that is evaluated now uses the desk. -/
def WrittenSource.read (b : Workbench) (source : WrittenSource) (desk : Desk) :
    Except BuildError (FieldSource (DeferredMap producers)) × Desk :=
  match source with
  | .recorded fields => (.ok (.deferred (.custom (fields.read b))), desk)
  | .now fields =>
    match MapTerm.evaluateOnto b.types ∅ (fields.read b) desk with
    | (.error e, desk) => (.error e, desk)
    | (.ok map, desk) => (.ok (.ready map), desk)

/-- The source that is written, or an empty one. -/
def readSource (b : Workbench) (source : Option WrittenSource) (desk : Desk) :
    Except BuildError (FieldSource (DeferredMap producers)) × Desk :=
  match source with
  | none => (.ok (.ready ∅), desk)
  | some source => source.read b desk

/-- How recorded fields run that belong to no type. -/
def unownedRunner (b : Workbench) :
    Runner (DeferredField producers) (DeferredMap producers) Desk :=
  b.types.runner outside none

/-- Goes on with the registry of a handle. -/
def withRegistry (b : Workbench) (handle : String)
    (next : RegistryId → Answer × Workbench) : Answer × Workbench :=
  match b.registryOf handle with
  | none => (.misread, b)
  | some id => next id

/-- Goes on with recorded fields. -/
def withThunk (b : Workbench) (name : String)
    (next : FieldThunk (DeferredField producers) (DeferredMap producers) → Answer × Workbench) :
    Answer × Workbench :=
  match b.thunks.lookup? name with
  | none => (.misread, b)
  | some thunk => next thunk

/-- Goes on with the type held under a label. -/
def withHeld (b : Workbench) (label : String) (next : TypeId → Answer × Workbench) :
    Answer × Workbench :=
  match b.desk.held label with
  | .error e => (.failed e, b)
  | .ok type => next type

/-- Goes on with a class. -/
def withClass (b : Workbench) (name : String) (next : ClassKind → Answer × Workbench) :
    Answer × Workbench :=
  match ClassKind.ofName name with
  | .error e => (.failed e, b)
  | .ok kind => next kind

/-- Replaces recorded fields and answers with their number. -/
def putThunk (b : Workbench) (name : String)
    (thunk : FieldThunk (DeferredField producers) (DeferredMap producers)) : Answer × Workbench :=
  (.size thunk.length, { b with thunks := b.thunks.insert name thunk })

/-- The schemas of loaded definitions as they are shown. -/
def definitionsAnswer (b : Workbench) (d : Definitions) : Answer :=
  .definitions
    (d.schemas.entries.map fun entry ↦ (entry.1, b.pathsView d.schemas entry.2)) d.types

/-- Builds the type that a step asks for and holds it. -/
def runBuild (b : Workbench) (step : BuildStep) : Answer × Workbench :=
  withClass b step.className fun kind ↦
  withRegistry b step.handle fun registry ↦
  match b.schemas.names.lookup? step.schema with
  | none => (.misread, b)
  | some schema =>
    onDesk b (readSource b step.extend) fun b extend ↦
    onDesk b (readSource b step.props) fun b props ↦
    let request : BuildRequest producers := {
      name := step.name
      description := step.description
      classKind := kind
      schema := schema
      exclude := step.exclude
      extend := extend
      props := props }
    match b.types.build b.heap registry request with
    | (.error e, types) => (.failed e, { b with types })
    | (.ok type, types) =>
      let b := { b with types }.hold step.label type
      (.type (b.typeView type), b)

/-- Makes a type of recorded fields and holds it. The recorded fields are gone afterwards. -/
def runConstruct (b : Workbench) (step : ConstructStep) : Answer × Workbench :=
  withClass b step.className fun kind ↦
  withThunk b step.thunk fun thunk ↦
  let type := b.types.nextType
  let b := { b with
    thunks := b.thunks.erase step.thunk
    types := b.types.addType ⟨step.name, step.description, kind, thunk⟩ }
  let b := b.hold step.label type
  (.type (b.typeView type), b)

/-- Shows the request for a declaration, with its overrides evaluated now. -/
def runRequest (b : Workbench) (d : Definitions) (registry : RegistryId) (index : Nat) :
    Answer × Workbench :=
  match d.types[index]? with
  | none => (.misread, b)
  | some declaration =>
    match d.request declaration registry with
    | .error e => (.refused e, b)
    | .ok request =>
      let (extend, desk) := request.extend.resolve b.unownedRunner b.desk
      let (props, desk) := request.props.resolve b.unownedRunner desk
      let b := { b with desk }
      (.request {
        name := request.name
        description := request.description
        kind := request.classKind
        exclude := (request.exclude.mergeSort fun a b ↦ a ≤ b).eraseDups
        schema := schemaNames d.schemas request.schema
        extend := extend.map b.fieldsView
        props := props.map b.fieldsView }, b)

/-- Takes a step. Answers about schemas are given for the workbench after it settled. -/
def take (b : Workbench) : Step → Answer × Workbench
  | .schema name paths =>
    match b.schemas.defineNamed name paths with
    | none => (.misread, b)
    | some (id, schemas) =>
      let b := settle { b with schemas }
      (.schema (b.pathsView b.schemas.names id), b)
  | .dropSchema name =>
    (.flag (b.schemas.names.contains name),
      { b with schemas := { b.schemas with names := b.schemas.names.erase name } })
  | .registry handle cloneOf =>
    match cloneOf with
    | none =>
      let id := b.types.nextRegistry
      (.names [], { b with types := b.types.addRegistry, handles := b.handles.insert handle id })
    | some source =>
      withRegistry b source fun id ↦
        (.names (b.types.registryAt id).keys, { b with handles := b.handles.insert handle id })
  | .dropRegistry handle =>
    (.flag (b.handles.contains handle), { b with handles := b.handles.erase handle })
  | .weak handle registry =>
    withRegistry b registry fun id ↦
      (.done, { b with weakHandles := b.weakHandles.insert handle id })
  | .weakLookup handle name =>
    withRegistry b handle fun id ↦
      (.weakFound ((b.types.lookup id name).map b.typeView)
        ((b.types.registry? id).map OrderedMap.keys), b)
  | .build step => runBuild b step
  | .register handle name label =>
    withHeld b label fun type ↦
    withRegistry b handle fun id ↦
    match b.types.register id name type with
    | .error e => (.failed e, b)
    | .ok types => (.done, { b with types })
  | .lookup handle name label =>
    withRegistry b handle fun id ↦
    match b.types.lookup id name with
    | none => (.found none, b)
    | some type =>
      let b := match label with
        | none => b
        | some label => b.hold label type
      (.found (some (b.typeView type)), b)
  | .state handle =>
    withRegistry b handle fun id ↦
      let registry := b.types.registryAt id
      (.state registry.keys (registry.values.map b.typeView), b)
  | .evaluateAll handle =>
    withRegistry b handle fun id ↦
      let (failures, desk) := b.types.failures outside id b.desk
      (.failures failures, { b with desk })
  | .dropType label =>
    (.flag (b.desk.labels.contains label),
      { b with desk := { b.desk with labels := b.desk.labels.erase label } })
  | .fields label =>
    withHeld b label fun type ↦
    onDesk b (b.types.fields outside type) fun b fields ↦ (.fields (b.fieldsView fields), b)
  | .json label =>
    withHeld b label fun type ↦
    onDesk b (b.types.snapshot outside type) fun b json ↦ (.text json.text, b)
  | .sdl labels =>
    match labels.mapM b.desk.held with
    | .error e => (.failed e, b)
    | .ok types => onDesk b (b.types.sdl outside types) fun b text ↦ (.text text, b)
  | .thunk name => (.done, { b with thunks := b.thunks.insert name [] })
  | .setField thunk name field =>
    withThunk b thunk fun layers ↦
    onDesk b ((field.read b).field b.types) fun b spec ↦
      b.putThunk thunk (layers.setField name spec)
  | .setDeferred thunk name field =>
    withThunk b thunk fun layers ↦
      b.putThunk thunk (layers.setDeferred name (.custom (field.read b)))
  | .extend thunk source =>
    withThunk b thunk fun layers ↦
    onDesk b (source.read b) fun b source ↦ b.putThunk thunk (layers.merge source)
  | .evaluate thunk =>
    withThunk b thunk fun layers ↦
    onDesk b (layers.evaluate b.unownedRunner) fun b fields ↦ (.fields (b.fieldsView fields), b)
  | .construct step => runConstruct b step
  | .resolve source =>
    onDesk b (source.read b) fun b source ↦
    onDesk b (source.resolve b.unownedRunner) fun b fields ↦ (.fields (b.fieldsView fields), b)
  | .typeRef term =>
    onDesk b ((⟨term.read b, none⟩ : FieldTerm).field b.types) fun b spec ↦
      let (text, type) := b.typeRefView spec.type
      (.typeRef text type, b)
  | .equal left right =>
    onDesk b ((⟨left.read b, none⟩ : FieldTerm).field b.types) fun b l ↦
    onDesk b ((⟨right.read b, none⟩ : FieldTerm).field b.types) fun b r ↦
      (.flag (l.type = r.type), b)
  | .resolveExpr text handle typeName =>
    match TypeExpr.parse text with
    | .error e => (.refused e, b)
    | .ok expr =>
      withRegistry b handle fun id ↦
      match b.types.resolve id typeName expr with
      | .error e => (.failed e, b)
      | .ok type =>
        let (text, type) := b.typeRefView type
        (.typeRef text type, b)
  | .load name document =>
    match Definitions.ofText b.heap document with
    | .error e => (.refused e, b)
    | .ok (d, heap) =>
      let names := d.schemas.entries.foldl
        (fun names entry ↦ names.insert (name ++ "." ++ entry.1) entry.2) b.schemas.names
      let b := settle { b with
        schemas := ⟨heap, names⟩
        definitions := b.definitions.insert name d }
      (b.definitionsAnswer d, b)
  | .request definitions handle index =>
    withRegistry b handle fun id ↦
    match b.definitions.lookup? definitions with
    | none => (.misread, b)
    | some d => runRequest b d id index
  | .buildAll definitions handle label =>
    withRegistry b handle fun id ↦
    match b.definitions.lookup? definitions with
    | none => (.misread, b)
    | some d =>
      match d.buildAll b.heap id b.types with
      | (.error e, types) => (.refused e, { b with types })
      | (.ok built, types) =>
        let b := { b with types }.holdAll label 0 built
        (.types (built.map b.typeView), b)

/-- Takes steps in order. -/
def takeAll (b : Workbench) : List Step → List Answer
  | [] => []
  | step :: rest =>
    let (answer, b) := b.take step
    answer :: b.settle.takeAll rest

end DocumentTypes.Workbench

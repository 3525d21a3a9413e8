import DocumentTypes.BuildRequest

/-!
Building types from schemas. Each path of a schema that is not excluded becomes one recorded field
(`pathLayer`): a classified scalar, a population reference that is resolved when the fields are
evaluated, the type itself where the schema embeds itself, or a nested type that is built on the
way (`buildWithin`). Embedding a schema that encloses the current one is an error, so the schemas
of nested requests are pairwise different and building ends: each step down leaves fewer living
schemas unvisited.
-/

set_option autoImplicit false

namespace DocumentTypes

/-- The types that enclose the one being built, with their schemas, outermost first. -/
abbrev Lineage := List (String × SchemaId)

namespace Lineage

def schemas (lineage : Lineage) : List SchemaId :=
  lineage.map Prod.snd

/-- The names from the first type that is built from `schema` on. -/
def namesFrom (lineage : Lineage) (schema : SchemaId) : List String :=
  (lineage.dropWhile (fun enclosing ↦ enclosing.2 ≠ schema)).map Prod.fst

end Lineage

section Walk

variable {P : Producers}

/-- The recorded field of one path. `nested` builds the type for an embedded schema other than the
requested one. -/
def pathLayer (request : BuildRequest P) (registry : RegistryId)
    (nested : (field : String) → (target : SchemaId) → target ≠ request.schema → World P →
      Except BuildError TypeId × World P)
    (field : String) (d : PathDescriptor SchemaLink) (w : World P) :
    Except BuildError (FieldLayer (DeferredField P) (DeferredMap P)) × World P :=
  match d.element with
  | .reference typeName => (.ok (.deferred field (.reference registry typeName request.name)), w)
  | .primitive kind =>
    match kind.scalar with
    | .error e => (.error e, w)
    | .ok s => (.ok (.field field (.ofType (.listIf d.isArray (.scalar s)))), w)
  | .embedded link =>
    if h : link.target = request.schema then
      (.ok (.deferred field (.itself d.isArray request.name)), w)
    else
      match nested field link.target h w with
      | (.error e, w) => (.error e, w)
      | (.ok type, w) => (.ok (.field field (.ofType (.listIf d.isArray (.named type)))), w)

/-- The recorded fields of the paths that are not excluded, in order. The first failing path ends
the walk. -/
def walk (request : BuildRequest P) (registry : RegistryId)
    (nested : (field : String) → (target : SchemaId) → target ≠ request.schema → World P →
      Except BuildError TypeId × World P) :
    List (String × PathDescriptor SchemaLink) → World P →
      Except BuildError (FieldThunk (DeferredField P) (DeferredMap P)) × World P
  | [], w => (.ok [], w)
  | (field, d) :: rest, w =>
    if field ∈ request.exclude then walk request registry nested rest w
    else
      match pathLayer request registry nested field d w with
      | (.error e, w) => (.error e, w)
      | (.ok layer, w) =>
        match walk request registry nested rest w with
        | (.error e, w) => (.error e, w)
        | (.ok layers, w) => (.ok (layer :: layers), w)

/-- Adds a type and registers it under its name. A refused registration changes nothing. -/
def World.construct (w : World P) (registry : RegistryId) (type : GeneratedType P) :
    Except BuildError TypeId × World P :=
  match (w.addType type).register registry type.name w.nextType with
  | .error e => (.error e, w)
  | .ok w' => (.ok w.nextType, w')

/-- The cycle that a type nested under `field` would close: the enclosing types from the one that is
built from `target` on, the current type, and the nested type. -/
def embeddingCycle (ancestors : Lineage) (name field : String) (target : SchemaId) : List String :=
  ancestors.namesFrom target ++ [name, subFieldName name field]

/-- Builds the requested type inside `ancestors`, or gives the type that is registered under its
name already. -/
def buildWithin (heap : SchemaHeap) (registry : RegistryId) (ancestors : Lineage)
    (request : BuildRequest P) (w : World P) : Except BuildError TypeId × World P :=
  if (heap.paths request.schema).isEmpty then (.error (.missingOption .schema), w)
  else if request.name.isEmpty then (.error (.missingOption .name), w)
  else
    match w.lookup registry request.name with
    | some type => (.ok type, w)
    | none =>
      let nested (field : String) (target : SchemaId) (_hself : target ≠ request.schema)
          (w : World P) : Except BuildError TypeId × World P :=
        if _hcycle : target ∈ ancestors.schemas then
          (.error (.embeddingCycle (embeddingCycle ancestors request.name field target)), w)
        else if _halive : heap.isAlive target = true then
          buildWithin heap registry (ancestors ++ [(request.name, request.schema)])
            (request.nested field target) w
        else (.error (.missingOption .schema), w)
      match walk request registry nested (heap.paths request.schema) w with
      | (.error e, w) => (.error e, w)
      | (.ok generated, w) => w.construct registry (request.type generated)
termination_by (unvisited heap.living (request.schema :: ancestors.schemas)).length
decreasing_by
  apply length_unvisited_lt (SchemaHeap.mem_living.mpr _halive)
  · simp [_hself, _hcycle]
  · simp [BuildRequest.nested]
  · intro i hi
    simp only [Lineage.schemas, List.map_append, List.map_cons, List.map_nil, List.mem_cons,
      List.mem_append, List.not_mem_nil, or_false] at hi ⊢
    exact Or.inr hi.symm

/-- Builds the requested type and the types nested in it, or gives the type that is registered
under its name already. -/
def World.build (w : World P) (heap : SchemaHeap) (registry : RegistryId)
    (request : BuildRequest P) : Except BuildError TypeId × World P :=
  buildWithin heap registry [] request w

end Walk

end DocumentTypes

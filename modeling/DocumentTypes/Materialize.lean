import DocumentTypes.Document
import DocumentTypes.LoadError

/-!
From the declared schemas of a document to schemas in a heap. A schema is put into the heap after
every schema that it embeds (`materialize`), once for each name. A schema may embed itself, by a
cyclic link; any other cycle of embeddings is an error.
-/

set_option autoImplicit false

namespace DocumentTypes

/-- What an embedded name designates: the schema that embeds it, or one that is in the heap. -/
inductive EmbedTarget where
  | itself
  | other (id : SchemaId)
deriving DecidableEq

/-- The link to a target from the schema at `me`. -/
def EmbedTarget.link (me : SchemaId) : EmbedTarget → SchemaLink
  | itself => .cyclic me
  | other id => .shared id

/-- A heap, and the schemas of the document that are in it. -/
structure Materialized where
  heap : SchemaHeap
  built : OrderedMap SchemaId

/-- The target of a name that a field of `owner` embeds. `embed` puts a schema into the heap. -/
def embedTarget (schemas : DeclaredSchemas) (owner field : String)
    (embed : String → Materialized → Except LoadError (SchemaId × Materialized))
    (schema : String) (m : Materialized) : Except LoadError (EmbedTarget × Materialized) :=
  if schema = owner then .ok (.itself, m)
  else if schemas.contains schema then
    match embed schema m with
    | .error e => .error e
    | .ok (id, m) => .ok (.other id, m)
  else .error (.unknownSchema schema (.field owner field))

/-- The descriptor of one field of `owner`. Every field of a document without violations has one.
The error for any other field names it by its pointer, which escapes marks in the names, although
the context of an unknown schema has the names as they are. -/
def resolveField (schemas : DeclaredSchemas) (owner field : String)
    (embed : String → Materialized → Except LoadError (SchemaId × Materialized))
    (declared : FieldDef) (m : Materialized) :
    Except LoadError (PathDescriptor EmbedTarget × Materialized) :=
  match declared.descriptor? with
  | none =>
    .error (.invalidDocument
      [⟨[.member "schemas", .member owner, .member field], .notSingleElement⟩])
  | some ⟨.primitive kind, isArray⟩ => .ok (⟨.primitive kind, isArray⟩, m)
  | some ⟨.reference typeName, isArray⟩ => .ok (⟨.reference typeName, isArray⟩, m)
  | some ⟨.embedded schema, isArray⟩ =>
    match embedTarget schemas owner field embed schema m with
    | .error e => .error e
    | .ok (target, m) => .ok (⟨.embedded target, isArray⟩, m)

/-- The descriptors of fields of `owner`, in order. -/
def resolveFields (schemas : DeclaredSchemas) (owner : String)
    (embed : String → Materialized → Except LoadError (SchemaId × Materialized)) :
    List (String × FieldDef) → Materialized →
      Except LoadError (List (String × PathDescriptor EmbedTarget) × Materialized)
  | [], m => .ok ([], m)
  | (field, declared) :: rest, m =>
    match resolveField schemas owner field embed declared m with
    | .error e => .error e
    | .ok (descriptor, m) =>
      match resolveFields schemas owner embed rest m with
      | .error e => .error e
      | .ok (descriptors, m) => .ok ((field, descriptor) :: descriptors, m)

/-- Puts the schema `name` into the heap, and before it every schema that it embeds. `stack` holds
the names of the schemas whose fields are being resolved, outermost first. -/
def materialize (schemas : DeclaredSchemas) (stack : List String) (name : String)
    (m : Materialized) : Except LoadError (SchemaId × Materialized) :=
  match m.built.lookup? name with
  | some id => .ok (id, m)
  | none =>
    if _hstack : name ∈ stack then
      .error (.embeddingCycle (stack.dropWhile (fun n ↦ n ≠ name) ++ [name]))
    else
      match _hfields : schemas.lookup? name with
      | none => .error (.unknownSchema name .document)
      | some fields =>
        let embed (schema : String) (m : Materialized) :=
          materialize schemas (stack ++ [name]) schema m
        match resolveFields schemas name embed fields.entries m with
        | .error e => .error e
        | .ok (descriptors, m) =>
          let me := m.heap.nextId
          let schema : Schema := .ofList
            (descriptors.map fun path ↦ (path.1, path.2.mapLink (EmbedTarget.link me)))
          .ok (me, ⟨m.heap.add schema, m.built.insert name me⟩)
termination_by (unvisited schemas.keys stack).length
decreasing_by
  exact length_unvisited_lt (OrderedMap.mem_keys_of_lookup? _hfields) _hstack (by simp)
    (List.subset_append_left ..)

/-- Puts the schemas with the given names into the heap, in order. -/
def materializeAll (schemas : DeclaredSchemas) :
    List String → Materialized → Except LoadError Materialized
  | [], m => .ok m
  | name :: rest, m =>
    match materialize schemas [] name m with
    | .error e => .error e
    | .ok (_, m) => materializeAll schemas rest m

end DocumentTypes

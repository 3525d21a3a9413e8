import DocumentTypes.Kind
import DocumentTypes.OrderedMap
import DocumentTypes.Unvisited

/-!
Document schemas: ordered maps from field names to descriptors. Schemas live in a heap, and a
field embeds another schema through a link to its place there. A shared link keeps its target
alive, a cyclic link does not (`SchemaHeap.retain`).
-/

set_option autoImplicit false

namespace DocumentTypes

/-- The place of a schema in its heap. Two links designate the same schema when they name the same
place. -/
abbrev SchemaId := Nat

inductive SchemaLink where
  | shared (target : SchemaId)
  | cyclic (target : SchemaId)
deriving DecidableEq, Repr

/-- The place that a link names. -/
def SchemaLink.target : SchemaLink → SchemaId
  | shared target => target
  | cyclic target => target

/-- What a field holds. A reference names a generated type that populates the field; embedded
schemas are given by links of type `L`. -/
inductive Element (L : Type) where
  | primitive (kind : PrimitiveKind)
  | embedded (link : L)
  | reference (typeName : String)
deriving DecidableEq, Repr

/-- The descriptor of a field: one element, or an array of such elements. -/
structure PathDescriptor (L : Type) where
  element : Element L
  isArray : Bool
deriving DecidableEq, Repr

/-- The descriptor with its link, if it has one, replaced. -/
def PathDescriptor.mapLink {L M : Type} (f : L → M) (d : PathDescriptor L) : PathDescriptor M :=
  match d.element with
  | .primitive kind => ⟨.primitive kind, d.isArray⟩
  | .embedded link => ⟨.embedded (f link), d.isArray⟩
  | .reference typeName => ⟨.reference typeName, d.isArray⟩

/-- The link of a descriptor, if it embeds a schema. -/
def PathDescriptor.link? {L : Type} (d : PathDescriptor L) : Option L :=
  match d.element with
  | .embedded link => some link
  | _ => none

/-- The field names of a schema with their descriptors, in declaration order. -/
abbrev Schema := OrderedMap (PathDescriptor SchemaLink)

namespace Schema

/-- The schemas that this one keeps alive. -/
def owned (schema : Schema) : List SchemaId :=
  schema.values.filterMap fun d ↦
    match d.link? with
    | some (.shared target) => some target
    | _ => none

end Schema

/-- Schemas by place. An empty slot holds no schema: one that is still being defined, or one that
nothing holds any more. Places are never used twice. -/
structure SchemaHeap where
  slots : Array (Option Schema)

namespace SchemaHeap

def empty : SchemaHeap := ⟨#[]⟩

instance : Inhabited SchemaHeap := ⟨empty⟩

/-- The living schema at a place. -/
def lookup? (heap : SchemaHeap) (id : SchemaId) : Option Schema :=
  (heap.slots[id]?).join

/-- The paths of the schema at a place; none when no schema lives there. -/
def paths (heap : SchemaHeap) (id : SchemaId) : List (String × PathDescriptor SchemaLink) :=
  match heap.lookup? id with
  | some schema => schema.entries
  | none => []

def isAlive (heap : SchemaHeap) (id : SchemaId) : Bool :=
  (heap.lookup? id).isSome

/-- The place that the next schema gets. -/
def nextId (heap : SchemaHeap) : SchemaId :=
  heap.slots.size

/-- A place for a schema that is defined later. -/
def reserve (heap : SchemaHeap) : SchemaHeap :=
  ⟨heap.slots.push none⟩

/-- Puts a schema at a reserved place. -/
def define (heap : SchemaHeap) (id : SchemaId) (schema : Schema) : SchemaHeap :=
  ⟨heap.slots.setIfInBounds id (some schema)⟩

/-- Adds a schema at `nextId`. -/
def add (heap : SchemaHeap) (schema : Schema) : SchemaHeap :=
  ⟨heap.slots.push (some schema)⟩

/-- The places where a schema lives. -/
def living (heap : SchemaHeap) : List SchemaId :=
  (List.range heap.slots.size).filter heap.isAlive

theorem mem_living {heap : SchemaHeap} {id : SchemaId} :
    id ∈ heap.living ↔ heap.isAlive id = true := by
  simp only [living, List.mem_filter, List.mem_range, and_iff_right_iff_imp]
  intro h
  by_cases hlt : id < heap.slots.size
  · exact hlt
  · simp [isAlive, lookup?, Array.getElem?_eq_none (Nat.le_of_not_lt hlt)] at h

/-- The places that are reached from `pending` through links that keep their targets alive, added
to those in `held`. -/
def holdAll (heap : SchemaHeap) (pending held : List SchemaId) : List SchemaId :=
  match pending with
  | [] => held
  | id :: rest =>
    if _h : heap.isAlive id = true ∧ id ∉ held then
      heap.holdAll (((heap.lookup? id).map Schema.owned).getD [] ++ rest) (id :: held)
    else heap.holdAll rest held
termination_by ((unvisited heap.living held).length, pending.length)
decreasing_by
  · exact Prod.Lex.left _ _ (length_unvisited_lt (mem_living.mpr _h.1) _h.2
      (List.mem_cons_self ..) (List.subset_cons_self ..))
  · exact Prod.Lex.right _ (by simp)

/-- Forgets the schemas that neither a root nor a living schema holds. -/
def retain (heap : SchemaHeap) (roots : List SchemaId) : SchemaHeap :=
  let held := heap.holdAll roots []
  ⟨heap.slots.mapIdx fun id slot ↦ if held.contains id then slot else none⟩

end SchemaHeap

end DocumentTypes

import DocumentTypes.Unvisited
import DocumentTypes.World

/-!
Visiting every type that is reachable through the fields of others, each name once and each field
map evaluated once, breadth first (`World.breadthFirst`).
-/

set_option autoImplicit false

namespace DocumentTypes

/-- The innermost named types of the fields, in order. -/
def namedTypes (fields : FieldMap) : List TypeId :=
  fields.values.filterMap fun spec ↦ spec.type.named?

namespace World

variable {P : Producers} {σ : Type}

/-- The names that a type of this world can have. A place without a type has no name. -/
def typeNames (w : World P) : List String :=
  "" :: w.types.toList.map GeneratedType.name

theorem name_mem_typeNames (w : World P) (type : TypeId) :
    (w.typeAt type).name ∈ w.typeNames := by
  unfold typeAt typeNames
  cases h : w.types[type]? with
  | none => simp [default]
  | some t =>
    have := Array.mem_of_getElem? h
    exact List.mem_cons_of_mem _ (List.mem_map.mpr ⟨t, by simpa using this, by simp⟩)

/-- Visits the types of the queue and those that they lead to, except types with a name in `seen`.
Each visited type is given with its fields. The first type whose fields cannot be evaluated ends
the visit. -/
def breadthFirst (w : World P) (outside : Outside P σ) (queue : List TypeId) (seen : List String)
    (s : σ) : Except BuildError (List (TypeId × FieldMap)) × σ :=
  match queue with
  | [] => (.ok [], s)
  | type :: rest =>
    if _hseen : (w.typeAt type).name ∈ seen then w.breadthFirst outside rest seen s
    else
      match w.fields outside type s with
      | (.error e, s) => (.error e, s)
      | (.ok fields, s) =>
        match w.breadthFirst outside (rest ++ namedTypes fields)
          ((w.typeAt type).name :: seen) s with
        | (.error e, s) => (.error e, s)
        | (.ok visited, s) => (.ok ((type, fields) :: visited), s)
termination_by ((unvisited w.typeNames seen).length, queue.length)
decreasing_by
  · exact Prod.Lex.right _ (by simp)
  · exact Prod.Lex.left _ _ (length_unvisited_lt (w.name_mem_typeNames type) _hseen
      (List.mem_cons_self ..) (List.subset_cons_self ..))

end World

end DocumentTypes

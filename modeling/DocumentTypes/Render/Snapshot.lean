import DocumentTypes.Json
import DocumentTypes.Traversal

/-!
Types as JSON. A type is expanded, with all its fields, where its name is met first; where the name
is met again, a reference to it is written (`World.snapshot`).
-/

set_option autoImplicit false

namespace DocumentTypes

/-- The names met after those in `seen`, and `seen` itself. -/
abbrev Grown (seen : List String) := { seen' : List String // seen ⊆ seen' }

/-- What rendering gives when the names in `seen` were met before: a value and the names met now. -/
abbrev Rendering (seen : List String) (σ α : Type) := Except BuildError (α × Grown seen) × σ

/-- The entry of a field whose type is rendered. -/
def fieldEntry (type : Json) (description : Option String) : Json :=
  .object (("type", type) ::
    match description with
    | none => []
    | some text => [("description", .string text)])

namespace World

variable {P : Producers} {σ : Type}

section

variable (w : World P) {base : List String}
  (expand : (type : TypeId) → (seen : List String) → base ⊆ seen →
    (w.typeAt type).name ∉ seen → σ → Rendering seen σ Json)

/-- The type of a field. `expand` renders a named type that was not met before. -/
def typeJson : TypeRef → (seen : List String) → base ⊆ seen → σ → Rendering seen σ Json
  | .scalar scalar, seen, _, s => (.ok (.string scalar.name, ⟨seen, List.Subset.refl _⟩), s)
  | .list element, seen, h, s =>
    match typeJson element seen h s with
    | (.error e, s) => (.error e, s)
    | (.ok (json, grown), s) => (.ok (.object [("listOf", json)], grown), s)
  | .named type, seen, h, s =>
    if hseen : (w.typeAt type).name ∈ seen then
      (.ok (.object [("$ref", .string (w.typeAt type).name)], ⟨seen, List.Subset.refl _⟩), s)
    else expand type seen h hseen s

/-- The entries of fields, in order. -/
def fieldsJson : List (String × FieldSpec) → (seen : List String) → base ⊆ seen → σ →
    Rendering seen σ (List (String × Json))
  | [], seen, _, s => (.ok ([], ⟨seen, List.Subset.refl _⟩), s)
  | (name, spec) :: rest, seen, h, s =>
    match w.typeJson expand spec.type seen h s with
    | (.error e, s) => (.error e, s)
    | (.ok (json, grown), s) =>
      match fieldsJson rest grown.1 (List.Subset.trans h grown.2) s with
      | (.error e, s) => (.error e, s)
      | (.ok (entries, grown'), s) =>
        (.ok ((name, fieldEntry json spec.description) :: entries,
          ⟨grown'.1, List.Subset.trans grown.2 grown'.2⟩), s)

end

/-- The expansion of a type whose fields are rendered. -/
def expansion (w : World P) (type : TypeId) (fields : List (String × Json)) : Json :=
  let t := w.typeAt type
  .object [
    ("name", .string t.name),
    ("description", (t.description.map Json.string).getD .null),
    ("kind", .string t.kind.keyword),
    ("fields", .object fields)]

/-- Expands a type that was not met before. -/
def expand (w : World P) (outside : Outside P σ) (type : TypeId) (seen : List String)
    (_hnew : (w.typeAt type).name ∉ seen) (s : σ) : Rendering seen σ Json :=
  match w.fields outside type s with
  | (.error e, s) => (.error e, s)
  | (.ok fields, s) =>
    let met := (w.typeAt type).name :: seen
    let inner (type : TypeId) (seen : List String) (_hmet : met ⊆ seen)
        (hfresh : (w.typeAt type).name ∉ seen) (s : σ) := w.expand outside type seen hfresh s
    match w.fieldsJson inner fields.entries met (List.Subset.refl _) s with
    | (.error e, s) => (.error e, s)
    | (.ok (entries, grown), s) =>
      (.ok (w.expansion type entries,
        ⟨grown.1, List.Subset.trans (List.subset_cons_self ..) grown.2⟩), s)
termination_by (unvisited w.typeNames seen).length
decreasing_by
  exact length_unvisited_lt (w.name_mem_typeNames _) _hnew (_hmet (List.mem_cons_self ..))
    (List.Subset.trans (List.subset_cons_self ..) _hmet)

/-- The snapshot of a type and of every type that is reachable from it. -/
def snapshot (w : World P) (outside : Outside P σ) (type : TypeId) (s : σ) :
    Except BuildError Json × σ :=
  match w.expand outside type [] List.not_mem_nil s with
  | (.error e, s) => (.error e, s)
  | (.ok (json, _), s) => (.ok json, s)

/-- The snapshots of types, in order. The first that fails ends it. -/
def snapshots (w : World P) (outside : Outside P σ) :
    List TypeId → σ → Except BuildError (List Json) × σ
  | [], s => (.ok [], s)
  | type :: rest, s =>
    match w.snapshot outside type s with
    | (.error e, s) => (.error e, s)
    | (.ok json, s) =>
      match w.snapshots outside rest s with
      | (.error e, s) => (.error e, s)
      | (.ok jsons, s) => (.ok (json :: jsons), s)

end World

end DocumentTypes

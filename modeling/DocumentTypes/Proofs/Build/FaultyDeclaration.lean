import DocumentTypes.Proofs.Build.Declarations
import DocumentTypes.Proofs.Build.Unfolding
import DocumentTypes.Proofs.Document.TypeExpression

/-!
Declarations that no request can be made for. What is wrong with such a declaration is listed in
the order in which it is looked at: its schema, its class, and the type expressions of its overrides
(`Definitions.problems`). A request is refused with the first of these problems and made when there
is none (`Definitions.error?_request`). Nothing is built for a declaration whose request is
refused, and the declarations behind it are not looked at, so the registry is left as the
declarations before it made it (`faulty_declaration_builds_nothing`).
-/

set_option autoImplicit false

namespace DocumentTypes

open World

variable {P : Producers} {heap : SchemaHeap} {registry : RegistryId}

/-- The error of a result, if it is one. -/
def error? {ε α : Type} : Except ε α → Option ε
  | .error e => some e
  | .ok _ => none

@[simp] theorem error?_map {ε α β : Type} (f : α → β) (result : Except ε α) :
    error? (result.map f) = error? result := by
  cases result <;> rfl

theorem error?_eq_some_iff {ε α : Type} {result : Except ε α} {e : ε} :
    error? result = some e ↔ result = .error e := by
  cases result <;> simp [error?]

namespace Definitions

variable {definitions : Definitions} {declaration : TypeDeclaration} {e : LoadError}

/-- The texts that cannot be read as type expressions, in order. -/
def unreadable (texts : List String) : List String :=
  texts.filter fun text ↦ (TypeExpr.ofText? text).isNone

/-- What is wrong with a declaration, in the order in which it is looked at. -/
def problems (definitions : Definitions) (declaration : TypeDeclaration) : List LoadError :=
  (if declaration.schema ∈ definitions.schemas.keys then []
    else [.unknownSchema declaration.schema (.declaration declaration.name)]) ++
  (if (ClassKind.ofName? declaration.className).isSome then []
    else [.build (.invalidClassKind declaration.className)]) ++
  (unreadable (declaration.extend.values ++ declaration.props.values)).map .invalidTypeExpr

/-! ### Overrides -/

/-- A text cannot be read when it spells no expression. -/
theorem mem_unreadable_iff {text : String} {texts : List String} :
    text ∈ unreadable texts ↔ text ∈ texts ∧ ∀ expr, ¬ TypeExpr.Spells text.toList expr := by
  rw [unreadable, List.mem_filter, Option.isNone_iff_eq_none, TypeExpr.ofText?,
    Option.eq_none_iff_forall_not_mem]
  exact and_congr_right' (forall_congr' fun expr ↦ not_congr TypeExpr.ofChars?_eq_some_iff)

theorem unreadable_append (first second : List String) :
    unreadable (first ++ second) = unreadable first ++ unreadable second :=
  List.filter_append ..

/-- Overrides are read up to the first text that cannot be read, which is the error. -/
theorem error?_readTypeMap (entries : List (String × String)) :
    error? (readTypeMap entries) =
      ((unreadable (entries.map Prod.snd)).map .invalidTypeExpr).head? := by
  induction entries with
  | nil => rfl
  | cons entry rest ih =>
    obtain ⟨field, text⟩ := entry
    unfold readTypeMap
    cases hread : TypeExpr.ofText? text with
    | none =>
      have hparse := TypeExpr.parse_eq_error_iff.mpr ⟨hread, rfl⟩
      simp [hparse, unreadable, hread, error?]
    | some expr =>
      have hparse := TypeExpr.parse_eq_ok_iff.mpr hread
      have hfirst : unreadable (text :: rest.map Prod.snd) = unreadable (rest.map Prod.snd) :=
        List.filter_cons_of_neg (by simp [hread])
      rw [List.map_cons, hfirst, ← ih, hparse]
      exact error?_map ..

theorem error?_typeMapSource (overrides : OrderedMap String) (registry : RegistryId)
    (name : String) :
    error? (typeMapSource overrides registry name : Except _ (FieldSource (DeferredMap P))) =
      ((unreadable overrides.values).map .invalidTypeExpr).head? := by
  rw [OrderedMap.values, ← error?_readTypeMap, typeMapSource]
  split
  · next hempty =>
    rw [List.isEmpty_iff.mp hempty]
    rfl
  · exact error?_map ..

/-! ### Requests -/

/-- The error of a request is the first problem of its declaration. -/
theorem error?_request :
    error? (definitions.request declaration registry : Except _ (BuildRequest P)) =
      (definitions.problems declaration).head? := by
  unfold Definitions.request problems
  cases hschema : definitions.schemas.lookup? declaration.schema with
  | none =>
    rw [if_neg (OrderedMap.lookup?_eq_none_iff.mp hschema)]
    rfl
  | some schema =>
    rw [if_pos (OrderedMap.mem_keys_of_lookup? hschema), List.nil_append]
    dsimp only
    unfold ClassKind.ofName
    cases ClassKind.ofName? declaration.className with
    | none => rfl
    | some kind =>
      rw [Option.isSome_some, if_pos rfl, List.nil_append, unreadable_append, List.map_append,
        List.head?_append, ← error?_typeMapSource (P := P) _ registry declaration.name,
        ← error?_typeMapSource (P := P) _ registry declaration.name]
      dsimp only
      cases typeMapSource declaration.extend registry declaration.name with
      | error e => rfl
      | ok extend =>
        dsimp only
        cases typeMapSource declaration.props registry declaration.name with
        | error e => rfl
        | ok props => rfl

/-- Nothing is built for a declaration with problems. -/
theorem buildOne_of_problems {others : List LoadError} (heap : SchemaHeap) (registry : RegistryId)
    (h : definitions.problems declaration = e :: others) (w : World P) :
    definitions.buildOne heap registry declaration w = (.error e, w) := by
  have hrequest : (definitions.request declaration registry : Except _ (BuildRequest P)) =
      .error e := by
    rw [← error?_eq_some_iff, error?_request, h, List.head?_cons]
  rw [buildOne, hrequest]

theorem problems_ne_nil_iff : definitions.problems declaration ≠ [] ↔
    declaration.schema ∉ definitions.schemas.keys ∨
      ClassKind.ofName? declaration.className = none ∨
      ∃ text ∈ declaration.extend.values ++ declaration.props.values,
        ∀ expr, ¬ TypeExpr.Spells text.toList expr := by
  have hexprs : unreadable (declaration.extend.values ++ declaration.props.values) ≠ [] ↔
      ∃ text ∈ declaration.extend.values ++ declaration.props.values,
        ∀ expr, ¬ TypeExpr.Spells text.toList expr := by
    simp only [← mem_unreadable_iff]
    exact ⟨List.exists_mem_of_ne_nil _, fun ⟨_, hmem⟩ ↦ List.ne_nil_of_mem hmem⟩
  rw [← hexprs, problems]
  by_cases hschema : declaration.schema ∈ definitions.schemas.keys
  · cases hclass : ClassKind.ofName? declaration.className <;> simp [hschema]
  · simp [hschema]

/-! ### Runs -/

section Runs

variable {declarations rest : List TypeDeclaration} {types : List TypeId} {w w₁ w' : World P}

/-- A failure behind declarations that can be built is a failure after these. -/
theorem buildEach_append_of_error
    (hbefore : definitions.buildEach heap registry declarations w = (.ok types, w₁))
    (hrest : definitions.buildEach heap registry rest w₁ = (.error e, w')) :
    definitions.buildEach heap registry (declarations ++ rest) w = (.error e, w') := by
  induction declarations generalizing w types with
  | nil =>
    obtain ⟨-, rfl⟩ := Prod.mk.inj hbefore
    exact hrest
  | cons declaration declarations ih =>
    obtain ⟨t, w₂, more, hfirst, hmore, -⟩ := buildEach_cons_eq_ok hbefore
    rw [List.cons_append, buildEach, hfirst]
    dsimp only
    rw [ih hmore]

/-- What is built depends on the schemas that were loaded, and not on the other declarations. -/
theorem buildEach_of_schemas (definitions : Definitions) (types declarations : List TypeDeclaration)
    (w : World P) :
    { definitions with types }.buildEach heap registry declarations w =
      definitions.buildEach heap registry declarations w := by
  induction declarations generalizing w with
  | nil => rfl
  | cons declaration declarations ih =>
    have hfirst : { definitions with types }.buildOne heap registry declaration w =
      definitions.buildOne heap registry declaration w := rfl
    simp only [buildEach, hfirst, ih]

end Runs

end Definitions

/-- A faulty declaration leaves the registry as the declarations before it made it. When the
declarations before position `k` can be built, and the one at `k` names an unknown schema, has an
invalid class, or has a text among its overrides that spells no type expression, then building all
declarations fails with the first of its problems: the schema, then the class, then the texts of
`extend` and those of `props`, in the order of their members. Everything is left as building only
the declarations before `k` leaves it, whatever is registered at the start, and whether or not the
name of the declaration is registered by then. -/
theorem faulty_declaration_builds_nothing {definitions : Definitions} {w w' : World P} {k : Nat}
    {declaration : TypeDeclaration} {types : List TypeId}
    (hk : definitions.types[k]? = some declaration)
    (hbefore : { definitions with types := definitions.types.take k }.buildAll heap registry w =
      (.ok types, w'))
    (hfaulty : declaration.schema ∉ definitions.schemas.keys ∨
      ClassKind.ofName? declaration.className = none ∨
      ∃ text ∈ declaration.extend.values ++ declaration.props.values,
        ∀ expr, ¬ TypeExpr.Spells text.toList expr) :
    ∃ e others, definitions.problems declaration = e :: others ∧
      definitions.buildAll heap registry w = (.error e, w') := by
  obtain ⟨e, others, hproblems⟩ :=
    List.exists_cons_of_ne_nil (Definitions.problems_ne_nil_iff.mpr hfaulty)
  refine ⟨e, others, hproblems, ?_⟩
  have htypes : definitions.types =
      definitions.types.take k ++ declaration :: definitions.types.drop (k + 1) := by
    obtain ⟨hlt, rfl⟩ := List.getElem?_eq_some_iff.mp hk
    rw [← List.drop_eq_getElem_cons hlt, List.take_append_drop]
  have hfirst := Definitions.buildOne_of_problems heap registry hproblems w'
  rw [Definitions.buildAll, Definitions.buildEach_of_schemas] at hbefore
  rw [Definitions.buildAll, htypes]
  refine Definitions.buildEach_append_of_error hbefore ?_
  rw [Definitions.buildEach, hfirst]

/-- Pets with homes, the pets once more, of a class that there is not and with ages that cannot be
read, and keepers. -/
def strayDocument : Json :=
  .object [("schemas", .object
      [("Animal", .object [("home", .object [("schema", .string "Place")])]),
      ("Place", .object [("city", .string "String")])]),
    ("types", .array
      [.object [("name", .string "Pet"), ("schema", .string "Animal"),
          ("class", .string "object")],
        .object [("name", .string "Pet"), ("schema", .string "Animal"), ("class", .string "pet"),
          ("extend", .object [("age", .string "[Int")])],
        .object [("name", .string "Keeper"), ("schema", .string "Place"),
          ("class", .string "object")]])]

/-- The class of the second pets is refused. The first pets and their homes stay registered. -/
theorem faulty_declaration_builds_nothing_pet :
    ∃ definitions heap declaration w, Definitions.ofJson .empty strayDocument =
        .ok (definitions, heap) ∧ definitions.types[1]? = some declaration ∧
      { definitions with types := definitions.types.take 1 }.buildAll heap 0 newWorld =
        (.ok [1], w) ∧
      (w.registryAt 0).keys = ["Pet_home", "Pet"] ∧
      ClassKind.ofName? declaration.className = none ∧
      definitions.problems declaration =
        [.build (.invalidClassKind "pet"), .invalidTypeExpr "[Int"] ∧
      definitions.buildAll heap 0 newWorld = (.error (.build (.invalidClassKind "pet")), w) := by
  have hresult : (Definitions.ofJson .empty strayDocument).map (fun loaded ↦
      (({ loaded.1 with types := loaded.1.types.take 1 }.buildAll loaded.2 0 newWorld).1,
        (({ loaded.1 with types := loaded.1.types.take 1 }.buildAll loaded.2 0
          newWorld).2.registryAt 0).keys,
        loaded.1.schemas.keys, loaded.1.types[1]?.map fun declaration ↦
          (declaration.schema, declaration.className, declaration.extend.values,
            declaration.props.values))) =
      .ok (.ok [1], ["Pet_home", "Pet"], ["Animal", "Place"],
        some ("Animal", "pet", ["[Int"], [])) := by with_unfolding_all rfl
  obtain ⟨definitions, heap, hload, hresult⟩ := Definitions.exists_of_map_ofJson hresult
  simp only [Prod.mk.injEq, Option.map_eq_some_iff] at hresult
  obtain ⟨htypes, hkeys, hschemas, declaration, hk, hschema, hclass, hextend, hprops⟩ := hresult
  have hpet : ClassKind.ofName? "pet" = none := by decide
  have hrefused : ClassKind.ofName? declaration.className = none := hclass ▸ hpet
  have hproblems : definitions.problems declaration =
      [.build (.invalidClassKind "pet"), .invalidTypeExpr "[Int"] := by
    have hread : TypeExpr.ofText? "[Int" = none := by decide +kernel
    simp [Definitions.problems, Definitions.unreadable, hschema, hschemas, hclass, hpet, hextend,
      hprops, hread]
  have hbefore : { definitions with types := definitions.types.take 1 }.buildAll heap 0 newWorld =
    (.ok [1], _) := Prod.ext htypes rfl
  obtain ⟨e, others, hfirst, hbuild⟩ :=
    faulty_declaration_builds_nothing hk hbefore (Or.inr (Or.inl hrefused))
  obtain ⟨rfl, -⟩ := List.cons.inj (hfirst.symm.trans hproblems)
  exact ⟨definitions, heap, declaration, _, hload, hk, hbefore, hkeys, hrefused, hproblems, hbuild⟩

end DocumentTypes

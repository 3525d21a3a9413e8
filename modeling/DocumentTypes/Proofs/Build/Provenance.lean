import DocumentTypes.Proofs.Build.CallOrder
import DocumentTypes.Proofs.Build.Recorded

/-!
Where the types of a registry come from. Every type that a build registers was generated by one of
its calls, under the name of that call (`Call.generated_of_lookup`), and of the calls that find one
name missing there is only one, so a registered type comes from one schema
(`Call.GeneratedFrom.schema_unique`).

Types are found by their names, and a nested name does not tell where the parent's name ends: two
positions of the embedding tree (`EmbeddedAt`) can have the same one. Then the type of the first is
found at the second, and no error is reported. A build on an empty registry gives every embedded
schema a type of its own exactly when positions with the same name embed the same schema.
-/

set_option autoImplicit false

namespace DocumentTypes

open World

variable {P : Producers} {heap : SchemaHeap} {registry : RegistryId}

namespace Call

variable {c c' : Call P} {name : String} {schema : SchemaId} {t : TypeId}

/-- The call finds its name missing and builds the type. -/
structure Generates (heap : SchemaHeap) (registry : RegistryId) (c : Call P) (t : TypeId) :
    Prop where
  missing : c.world.lookup registry c.request.name = none
  built : (c.run heap registry).1 = .ok t

theorem Generates.fulfils (h : c.Generates heap registry t)
    (hheld : c.world.HasRegistry registry) :
    (c.run heap registry).2.Fulfils heap registry c.request t :=
  fulfils_of_buildWithin hheld h.missing (Prod.ext h.built rfl)

/-- A type that is generated below a call still fulfils its request when that call has ended. -/
theorem Generates.fulfils_of_reaches (h : c'.Generates heap registry t)
    (hheld : c.world.HasRegistry registry) (hreaches : Reaches heap registry c c') :
    (c.run heap registry).2.Fulfils heap registry c'.request t :=
  (h.fulfils (Reaches.hasRegistry_world hheld hreaches)).later (Reaches.later_run hheld hreaches)
    (c.run_grows.hasRegistry hheld)

/-- The type is generated below a call, under a name and from a schema. -/
def GeneratedFrom (heap : SchemaHeap) (registry : RegistryId) (c : Call P) (name : String)
    (schema : SchemaId) (t : TypeId) : Prop :=
  ∃ c', Reaches heap registry c c' ∧ c'.request.name = name ∧ c'.request.schema = schema ∧
    c'.Generates heap registry t

theorem GeneratedFrom.of_makes (hmakes : Makes heap registry c c')
    (h : GeneratedFrom heap registry c' name schema t) :
    GeneratedFrom heap registry c name schema t := by
  obtain ⟨call, hreaches, hgenerates⟩ := h
  exact ⟨call, Relation.ReflTransGen.head hmakes hreaches, hgenerates⟩

/-- No two calls generate a type under one name: while the first runs, the calls below it have other
names, and afterwards the name is registered. -/
theorem Reaches.eq_of_generates {first second : Call P} {t₁ t₂ : TypeId}
    (hheld : c.world.HasRegistry registry) (hfirst : Reaches heap registry c first)
    (hsecond : Reaches heap registry c second) (hgenerates₁ : first.Generates heap registry t₁)
    (hgenerates₂ : second.Generates heap registry t₂)
    (hname : first.request.name = second.request.name) : first = second := by
  have hheld₁ := Reaches.hasRegistry_world hheld hfirst
  have hheld₂ := Reaches.hasRegistry_world hheld hsecond
  rcases Reaches.comparable hheld hfirst hsecond with hbelow | hbelow | hlater | hlater
  · rcases hbelow.eq_or_isNestedName with hsame | hnested
    · exact hsame.symm
    · exact absurd hname.symm hnested.ne
  · rcases hbelow.eq_or_isNestedName with hsame | hnested
    · exact hsame
    · exact absurd hname hnested.ne
  · exact absurd hlater (not_later_of_missing hheld₂ (hgenerates₁.fulfils hheld₁).registered
      hgenerates₂.missing hname)
  · exact absurd hlater (not_later_of_missing hheld₁ (hgenerates₂.fulfils hheld₂).registered
      hgenerates₁.missing hname.symm)

section Walk

variable
  (hcalls : ∀ c', Makes heap registry c c' → c'.world.HasRegistry registry →
    ∀ name t, (c'.run heap registry).2.lookup registry name = some t →
      c'.world.lookup registry name = some t ∨
        ∃ schema, GeneratedFrom heap registry c' name schema t)
  (hname : c.request.name ≠ "") (hnew : c.world.lookup registry c.request.name = none)

include hcalls hname hnew

/-- What is registered when a path has been looked at was registered before, or is generated by the
call for the path. -/
theorem generated_of_lookup_pathLayer
    {before after : List (String × PathDescriptor SchemaLink)} {field : String}
    {d : PathDescriptor SchemaLink} {layers : FieldThunk (DeferredField P) (DeferredMap P)}
    {layer : Except BuildError (FieldLayer (DeferredField P) (DeferredMap P))} {w w' : World P}
    (hkept : heap.kept c.request.exclude c.request.schema = before ++ (field, d) :: after)
    (hwalk : walk c.request registry (nestedBuild heap registry c.ancestors c.request) before
      c.world = (.ok layers, w))
    (hlayer : pathLayer c.request registry (nestedBuild heap registry c.ancestors c.request) field d
      w = (layer, w')) (hheld : w.HasRegistry registry)
    (h : w'.lookup registry name = some t) :
    w.lookup registry name = some t ∨ ∃ schema, GeneratedFrom heap registry c name schema t := by
  rcases pathLayer_world_cases hlayer with rfl | ⟨target, result, hother, hcycle, halive, hrun⟩
  · exact Or.inl h
  · have hmakes : Makes heap registry c (c.nested field target w) :=
      .nested hname hnew hkept hwalk hother hcycle halive
    have hend : ((c.nested field target w).run heap registry).2 = w' := congrArg Prod.snd hrun
    rw [← hend] at h
    rcases hcalls _ hmakes hheld name t h with hbefore | ⟨schema, hgenerated⟩
    · exact Or.inl hbefore
    · exact Or.inr ⟨schema, hgenerated.of_makes hmakes⟩

/-- What is registered when some more paths have been walked was registered before, or is generated
by the calls for these paths. -/
theorem generated_of_lookup_walk
    {before rest : List (String × PathDescriptor SchemaLink)}
    {layers : FieldThunk (DeferredField P) (DeferredMap P)} {w : World P}
    (hkept : heap.kept c.request.exclude c.request.schema = before ++ rest)
    (hwalk : walk c.request registry (nestedBuild heap registry c.ancestors c.request) before
      c.world = (.ok layers, w)) (hheld : w.HasRegistry registry)
    (h : (walk c.request registry (nestedBuild heap registry c.ancestors c.request) rest w).2.lookup
      registry name = some t) :
    w.lookup registry name = some t ∨ ∃ schema, GeneratedFrom heap registry c name schema t := by
  induction rest generalizing before layers w with
  | nil => exact Or.inl h
  | cons path rest ih =>
    obtain ⟨field, d⟩ := path
    have hfield := (SchemaHeap.of_kept_eq_append hkept).2
    rcases hlayer : pathLayer c.request registry (nestedBuild heap registry c.ancestors c.request)
      field d w with ⟨e | layer, w'⟩
    · rw [walk_cons_of_error hfield hlayer] at h
      exact generated_of_lookup_pathLayer hcalls hname hnew hkept hwalk hlayer hheld h
    · have hstep : walk c.request registry (nestedBuild heap registry c.ancestors c.request)
          (before ++ [(field, d)]) c.world = (.ok (layers ++ [layer]), w') := by
        rw [walk_append_of_ok hwalk, walk_cons_of_ok hfield hlayer]
        rfl
      have hrest : (walk c.request registry (nestedBuild heap registry c.ancestors c.request) rest
          w').2.lookup registry name = some t := by
        rw [walk_cons_of_ok hfield hlayer] at h
        rcases hmore : walk c.request registry (nestedBuild heap registry c.ancestors c.request)
          rest w' with ⟨e | more, w''⟩
        · rwa [hmore] at h
        · rwa [hmore] at h
      rcases ih (by rw [hkept, List.append_assoc, List.singleton_append]) hstep
        ((pathLayer_grows_nested hlayer).hasRegistry hheld) hrest with hlookup | hgenerated
      · exact generated_of_lookup_pathLayer hcalls hname hnew hkept hwalk hlayer hheld hlookup
      · exact Or.inr hgenerated

end Walk

/-- What is registered when a call has ended was registered before, or is generated below it. -/
theorem generated_of_lookup (c : Call P) (hheld : c.world.HasRegistry registry)
    (h : (c.run heap registry).2.lookup registry name = some t) :
    c.world.lookup registry name = some t ∨
      ∃ schema, GeneratedFrom heap registry c name schema t := by
  obtain ⟨ancestors, request, w⟩ := c
  induction ancestors, request, w using nested_induction heap generalizing name t with
  | step ancestors request w ih =>
    have hcalls : ∀ c', Makes heap registry ⟨ancestors, request, w⟩ c' →
        c'.world.HasRegistry registry → ∀ name t,
        (c'.run heap registry).2.lookup registry name = some t →
        c'.world.lookup registry name = some t ∨
          ∃ schema, GeneratedFrom heap registry c' name schema t := by
      intro c' hmakes hheld' name t hlookup
      obtain ⟨-, -, -, -, hother, hcycle, halive⟩ := hmakes
      exact ih _ _ _ (PathDescriptor.otherSchema?_eq_some hother).1 hcycle halive hheld' hlookup
    have hwalk : request.name ≠ "" → w.lookup registry request.name = none →
        (walk request registry (nestedBuild heap registry ancestors request)
          (heap.kept request.exclude request.schema) w).2.lookup registry name = some t →
        w.lookup registry name = some t ∨
          ∃ schema, GeneratedFrom heap registry ⟨ancestors, request, w⟩ name schema t :=
      fun hname hnew ↦
        generated_of_lookup_walk hcalls hname hnew (List.nil_append _).symm rfl hheld
    rcases hrun : buildWithin heap registry ancestors request w with ⟨result, w'⟩
    have hend : (run heap registry ⟨ancestors, request, w⟩).2 = w' := congrArg Prod.snd hrun
    rw [hend] at h
    rcases buildWithin_cases hrun with ⟨-, rfl, -⟩ | ⟨t', -, rfl, -⟩ |
      ⟨hname, hnew, ⟨e, herror, -⟩ | ⟨layers, w₁, hok, hconstruct⟩⟩
    · exact Or.inl h
    · exact Or.inl h
    · exact hwalk hname hnew (by rwa [herror])
    · cases result with
      | error e =>
        obtain ⟨rfl, -⟩ := construct_eq_error hconstruct
        exact hwalk hname hnew (by rwa [hok])
      | ok t' =>
        rw [lookup_construct ((walk_grows_nested hok).hasRegistry hheld) hconstruct] at h
        by_cases hsame : name = (request.type layers).name
        · rw [if_pos hsame] at h
          obtain rfl := Option.some.inj h
          exact Or.inr ⟨request.schema, _, Relation.ReflTransGen.refl, hsame.symm, rfl, hnew,
            congrArg Prod.fst hrun⟩
        · rw [if_neg hsame] at h
          exact hwalk hname hnew (by rwa [hok])

/-- The calls below a call leave the same fields out, and those that it makes have no overrides. -/
theorem Reaches.request_eq (h : Reaches heap registry c c') :
    c'.request.exclude = c.request.exclude ∧
      (c' = c ∨ c'.request.extend = .ready ∅ ∧ c'.request.props = .ready ∅) := by
  induction h with
  | refl => exact ⟨rfl, Or.inl rfl⟩
  | tail _ hmakes ih =>
    obtain ⟨field, d, target, -, -, hrequest⟩ := hmakes.request_eq
    rw [hrequest]
    exact ⟨ih.1, Or.inr ⟨rfl, rfl⟩⟩

end Call

/-- The positions of the embedding tree of a schema, with the names and the schemas of the types
that belong there. -/
inductive EmbeddedAt (heap : SchemaHeap) (exclude : List String) (name : String)
    (schema : SchemaId) : String → SchemaId → Prop
  | root : EmbeddedAt heap exclude name schema name schema
  | nested {parent field : String} {enclosing target : SchemaId} {d : PathDescriptor SchemaLink}
      (h : EmbeddedAt heap exclude name schema parent enclosing)
      (hkept : (field, d) ∈ heap.kept exclude enclosing)
      (hother : d.otherSchema? enclosing = some target) :
      EmbeddedAt heap exclude name schema (subFieldName parent field) target

namespace Call

theorem Reaches.embeddedAt {c c' : Call P} (h : Reaches heap registry c c') :
    EmbeddedAt heap c.request.exclude c.request.name c.request.schema c'.request.name
      c'.request.schema := by
  induction h with
  | refl => exact .root
  | tail hreaches hmakes ih =>
    obtain ⟨field, d, target, hkept, hother, hrequest⟩ := hmakes.request_eq
    rw [(Reaches.request_eq hreaches).1] at hkept
    rw [hrequest]
    exact .nested ih hkept hother

end Call

/-- Where the schema of a type that the build generates embeds another one, the type of the field
was generated from that one: it records the paths of the embedded schema, in order. -/
def NestedTypesFaithful (heap : SchemaHeap) (registry : RegistryId) (request : BuildRequest P)
    (w built : World P) : Prop :=
  ∀ name schema t, Call.GeneratedFrom heap registry ⟨[], request, w⟩ name schema t →
    ∀ field d target, (field, d) ∈ heap.kept request.exclude schema →
      d.otherSchema? schema = some target →
      ∃ u layers, .field field (.ofType (.listIf d.isArray (.named u))) ∈ (built.typeAt t).fields ∧
        Call.GeneratedFrom heap registry ⟨[], request, w⟩ (subFieldName name field) target u ∧
        (built.typeAt u).fields = layers ++ [.merge (.ready ∅), .merge (.ready ∅)] ∧
        List.Forall₂ (built.Records registry (subFieldName name field) target)
          (heap.kept request.exclude target) layers

section Faithful

variable {request : BuildRequest P} {w built : World P} {t : TypeId}

namespace Call.GeneratedFrom

variable {name field : String} {schema target : SchemaId} {u : TypeId}
  {d : PathDescriptor SchemaLink}

theorem embeddedAt (h : GeneratedFrom heap registry ⟨[], request, w⟩ name schema u) :
    EmbeddedAt heap request.exclude request.name request.schema name schema := by
  obtain ⟨c, hreaches, rfl, rfl, -⟩ := h
  exact Reaches.embeddedAt hreaches

theorem isNestedName (h : GeneratedFrom heap registry ⟨[], request, w⟩ name schema u)
    (field : String) : IsNestedName request.name (subFieldName name field) := by
  obtain ⟨c, hreaches, rfl, -, -⟩ := h
  rcases hreaches.eq_or_isNestedName with rfl | hnested
  · exact isNestedName_subFieldName _ field
  · exact hnested.trans (isNestedName_subFieldName _ field)

/-- A name belongs to one schema. -/
theorem schema_unique {schema' : SchemaId} {u' : TypeId} (hheld : w.HasRegistry registry)
    (h : GeneratedFrom heap registry ⟨[], request, w⟩ name schema u)
    (h' : GeneratedFrom heap registry ⟨[], request, w⟩ name schema' u') : schema = schema' := by
  obtain ⟨c, hreaches, hname, rfl, hgenerates⟩ := h
  obtain ⟨c', hreaches', hname', rfl, hgenerates'⟩ := h'
  rw [Reaches.eq_of_generates hheld hreaches hreaches' hgenerates hgenerates'
    (hname.trans hname'.symm)]

/-- The request that a generated type was built for is still fulfilled in the world that the build
leaves. -/
theorem fulfils (h : GeneratedFrom heap registry ⟨[], request, w⟩ name schema u)
    {result : Except BuildError TypeId} (hheld : w.HasRegistry registry)
    (hbuild : w.build heap registry request = (result, built)) :
    ∃ r : BuildRequest P, r.name = name ∧ r.schema = schema ∧ r.exclude = request.exclude ∧
      (r = request ∨ r.extend = .ready ∅ ∧ r.props = .ready ∅) ∧
      built.Fulfils heap registry r u := by
  obtain ⟨c, hreaches, hname, hschema, hgenerates⟩ := h
  obtain ⟨hexclude, hoverrides⟩ := Reaches.request_eq hreaches
  have hend : (run heap registry ⟨[], request, w⟩).2 = built := congrArg Prod.snd hbuild
  rw [← hend]
  exact ⟨c.request, hname, hschema, hexclude, hoverrides.imp_left fun hroot ↦ by rw [hroot],
    hgenerates.fulfils_of_reaches hheld hreaches⟩

/-- Where the schema of a generated type embeds another one, the type has a field with the type that
is registered under the nested name. -/
theorem nested_field (h : GeneratedFrom heap registry ⟨[], request, w⟩ name schema u)
    (hheld : w.HasRegistry registry) (hbuild : w.build heap registry request = (.ok t, built))
    (hkept : (field, d) ∈ heap.kept request.exclude schema)
    (hother : d.otherSchema? schema = some target) :
    ∃ v, built.lookup registry (subFieldName name field) = some v ∧
      .field field (.ofType (.listIf d.isArray (.named v))) ∈ (built.typeAt u).fields := by
  obtain ⟨r, rfl, rfl, hexclude, -, hfulfils⟩ := h.fulfils hheld hbuild
  rw [← hexclude] at hkept
  exact hfulfils.nested hkept hother

/-- A generated type that is not the requested one records the paths of its schema, in order, and
nothing else. -/
theorem recorded (h : GeneratedFrom heap registry ⟨[], request, w⟩ name schema u)
    (hheld : w.HasRegistry registry) (hbuild : w.build heap registry request = (.ok t, built))
    (hnested : name ≠ request.name) :
    ∃ layers, (built.typeAt u).fields = layers ++ [.merge (.ready ∅), .merge (.ready ∅)] ∧
      List.Forall₂ (built.Records registry name schema) (heap.kept request.exclude schema)
        layers := by
  obtain ⟨r, rfl, rfl, hexclude, hoverrides, hfulfils⟩ := h.fulfils hheld hbuild
  obtain ⟨layers, htype, hlayers⟩ := hfulfils.recorded
  rw [hexclude] at hlayers
  refine ⟨layers, ?_, hlayers⟩
  rw [htype]
  rcases hoverrides with rfl | ⟨hextend, hprops⟩
  · exact absurd rfl hnested
  · rw [BuildRequest.type, hextend, hprops]
    exact List.append_assoc layers [.merge (.ready ∅)] [.merge (.ready ∅)]

end Call.GeneratedFrom

theorem lookup_of_empty (hempty : w.registryAt registry = ∅) (name : String) :
    w.lookup registry name = none := by
  rw [World.lookup, hempty]
  rfl

/-- On an empty registry every registered type is generated by the build. -/
theorem generatedFrom_of_lookup {name : String} {u : TypeId} (hheld : w.HasRegistry registry)
    (hempty : w.registryAt registry = ∅)
    (hbuild : w.build heap registry request = (.ok t, built))
    (h : built.lookup registry name = some u) :
    ∃ schema, Call.GeneratedFrom heap registry ⟨[], request, w⟩ name schema u := by
  have hend : (Call.run heap registry ⟨[], request, w⟩).2 = built := congrArg Prod.snd hbuild
  rw [← hend] at h
  rcases Call.generated_of_lookup ⟨[], request, w⟩ hheld h with hbefore | hgenerated
  · exact absurd ((lookup_of_empty hempty name).symm.trans hbefore) (by simp)
  · exact hgenerated

/-- When nested types are those of the embedded schemas, a type is generated at every position. The
induction is on the way from the root to the position. -/
theorem generatedFrom_of_embeddedAt (hempty : w.registryAt registry = ∅)
    (hbuild : w.build heap registry request = (.ok t, built))
    (hfaithful : NestedTypesFaithful heap registry request w built) {name : String}
    {schema : SchemaId}
    (h : EmbeddedAt heap request.exclude request.name request.schema name schema) :
    ∃ u, Call.GeneratedFrom heap registry ⟨[], request, w⟩ name schema u := by
  induction h with
  | root =>
    exact ⟨t, _, Relation.ReflTransGen.refl, rfl, rfl, lookup_of_empty hempty _,
      congrArg Prod.fst hbuild⟩
  | nested _ hkept hother ih =>
    obtain ⟨parent, hparent⟩ := ih
    obtain ⟨u, -, -, hnested, -⟩ := hfaithful _ _ parent hparent _ _ _ hkept hother
    exact ⟨u, hnested⟩

/-- On an empty registry the nested types of a built type are those of the embedded schemas exactly
when the positions of the embedding tree that have the same name embed the same schema. -/
theorem nested_types_faithful_iff (hheld : w.HasRegistry registry)
    (hempty : w.registryAt registry = ∅)
    (hbuild : w.build heap registry request = (.ok t, built)) :
    NestedTypesFaithful heap registry request w built ↔
      ∀ name schema schema',
        EmbeddedAt heap request.exclude request.name request.schema name schema →
        EmbeddedAt heap request.exclude request.name request.schema name schema' →
        schema = schema' := by
  constructor
  · intro hfaithful name schema schema' hposition hposition'
    obtain ⟨u, hu⟩ := generatedFrom_of_embeddedAt hempty hbuild hfaithful hposition
    obtain ⟨u', hu'⟩ := generatedFrom_of_embeddedAt hempty hbuild hfaithful hposition'
    exact hu.schema_unique hheld hu'
  · intro hnames name schema parent hparent field d target hkept hother
    obtain ⟨u, hlookup, hfield⟩ := hparent.nested_field hheld hbuild hkept hother
    obtain ⟨target', hnested⟩ := generatedFrom_of_lookup hheld hempty hbuild hlookup
    have hposition := EmbeddedAt.nested hparent.embeddedAt hkept hother
    obtain rfl := hnames _ _ _ hposition hnested.embeddedAt
    obtain ⟨layers, hfields, hlayers⟩ :=
      hnested.recorded hheld hbuild (hparent.isNestedName field).ne
    exact ⟨u, layers, hfield, hnested, hfields, hlayers⟩

end Faithful

theorem embeddedAt_animal {name : String} {schema : SchemaId}
    (h : EmbeddedAt animalHeap [] "Animal" 0 name schema) :
    name = "Animal" ∧ schema = 0 ∨ name = "Animal_home" ∧ schema = 1 := by
  induction h with
  | root => exact Or.inl ⟨rfl, rfl⟩
  | @nested parent field enclosing target d _ hkept hother ih =>
    rcases ih with ⟨rfl, rfl⟩ | ⟨rfl, rfl⟩
    · have hanimal : (field, d) ∈ [("name", (⟨.primitive .string, false⟩ : PathDescriptor _)),
          ("home", ⟨.embedded (.shared 1), false⟩), ("young", ⟨.embedded (.cyclic 0), true⟩),
          ("owner", ⟨.reference "Person", false⟩)] := hkept
      simp only [List.mem_cons, Prod.mk.injEq, List.not_mem_nil, or_false] at hanimal
      rcases hanimal with ⟨rfl, rfl⟩ | ⟨rfl, rfl⟩ | ⟨rfl, rfl⟩ | ⟨rfl, rfl⟩
      · exact absurd hother (by simp [PathDescriptor.otherSchema?])
      · exact Or.inr ⟨by decide, (Option.some.inj hother).symm⟩
      · exact absurd hother (by simp [PathDescriptor.otherSchema?, SchemaLink.target])
      · exact absurd hother (by simp [PathDescriptor.otherSchema?])
    · have hplace : (field, d) ∈ [("city", (⟨.primitive .string, false⟩ : PathDescriptor _))] :=
        hkept
      obtain ⟨rfl, rfl⟩ := Prod.mk.inj (List.mem_singleton.mp hplace)
      exact absurd hother (by simp [PathDescriptor.otherSchema?])

/-- The animals have one nested type, which is that of the places. -/
theorem nested_types_faithful_animal :
    newWorld.HasRegistry 0 ∧ newWorld.registryAt 0 = ∅ ∧
      NestedTypesFaithful animalHeap 0 animalRequest newWorld
        (newWorld.build animalHeap 0 animalRequest).2 := by
  have hheld : newWorld.HasRegistry 0 := by decide
  have hempty : newWorld.registryAt 0 = ∅ := rfl
  refine ⟨hheld, hempty, (nested_types_faithful_iff hheld hempty build_animal).mpr ?_⟩
  intro name schema schema' hposition hposition'
  rcases embeddedAt_animal hposition with ⟨rfl, rfl⟩ | ⟨rfl, rfl⟩
  · rcases embeddedAt_animal hposition' with ⟨-, rfl⟩ | ⟨hname, -⟩
    · rfl
    · exact absurd hname (by decide)
  · rcases embeddedAt_animal hposition' with ⟨hname, -⟩ | ⟨-, rfl⟩
    · exact absurd hname (by decide)
    · rfl

/-- Two paths to a nested name: one with an underscore in it, and one with two steps. -/
def underscoreHeap : SchemaHeap :=
  ⟨#[some (.ofList
      [("a_b", ⟨.embedded (.shared 1), false⟩), ("a", ⟨.embedded (.shared 2), false⟩)]),
    some (.ofList [("y", ⟨.primitive .string, false⟩)]),
    some (.ofList [("b", ⟨.embedded (.shared 3), false⟩)]),
    some (.ofList [("x", ⟨.primitive .string, false⟩)])]⟩

def underscoreRequest : BuildRequest .none where
  name := "R"
  description := none
  classKind := .object
  schema := 0
  exclude := []
  extend := .ready ∅
  props := .ready ∅

/-- The world after the first path of the request. -/
def underscoreWorld : World .none :=
  (walk underscoreRequest 0 (nestedBuild underscoreHeap 0 [] underscoreRequest)
    [("a_b", ⟨.embedded (.shared 1), false⟩)] newWorld).2

/-- The type of the first path is found at the second one, with the field of another schema. -/
theorem nested_types_unfaithful_underscore :
    ¬ ∀ (heap : SchemaHeap) (request : BuildRequest .none) (w built : World .none) (t : TypeId),
      w.HasRegistry 0 → w.registryAt 0 = ∅ → w.build heap 0 request = (.ok t, built) →
      NestedTypesFaithful heap 0 request w built := by
  intro hall
  have hresult : (newWorld.build underscoreHeap 0 underscoreRequest).1 = .ok 2 := by decide +kernel
  have hfaithful := hall underscoreHeap underscoreRequest newWorld _ 2 (by decide) rfl
    (Prod.ext hresult rfl)
  have hkept : underscoreHeap.kept [] 0 = [("a_b", ⟨.embedded (.shared 1), false⟩)] ++
      ("a", ⟨.embedded (.shared 2), false⟩) :: [] := by decide
  have hwalk : walk underscoreRequest 0 (nestedBuild underscoreHeap 0 [] underscoreRequest)
      [("a_b", ⟨.embedded (.shared 1), false⟩)] newWorld =
      (.ok [.field "a_b" (.ofType (.named 0))], underscoreWorld) :=
    Prod.ext (by with_unfolding_all rfl) rfl
  have hmakes : Call.Makes underscoreHeap 0 ⟨[], underscoreRequest, newWorld⟩
      (Call.nested ⟨[], underscoreRequest, newWorld⟩ "a" 2 underscoreWorld) :=
    .nested (by decide) (by decide) hkept hwalk rfl List.not_mem_nil (by decide)
  have hgenerates : (Call.nested ⟨[], underscoreRequest, newWorld⟩ "a" 2 underscoreWorld).Generates
      underscoreHeap 0 1 := ⟨by decide +kernel, by decide +kernel⟩
  obtain ⟨u, layers, hfield, -, hlayers, hrecords⟩ := hfaithful "R_a" 2 1
    ⟨_, Relation.ReflTransGen.single hmakes, by decide, rfl, hgenerates⟩ "b"
    ⟨.embedded (.shared 3), false⟩ 3 (by decide) rfl
  have hparent : ((newWorld.build underscoreHeap 0 underscoreRequest).2.typeAt 1).fields =
      [.field "b" (.ofType (.named 0)), .merge (.ready ∅), .merge (.ready ∅)] := by
    with_unfolding_all rfl
  have hnested : ((newWorld.build underscoreHeap 0 underscoreRequest).2.typeAt 0).fields =
      [.field "y" (.ofType (.scalar .string)), .merge (.ready ∅), .merge (.ready ∅)] := by
    with_unfolding_all rfl
  have hfirst : u = 0 := by
    rw [hparent] at hfield
    simpa [TypeRef.listIf, FieldSpec.ofType] using hfield
  subst hfirst
  rw [hnested] at hlayers
  have hkept' : underscoreHeap.kept [] 3 = [("x", ⟨.primitive .string, false⟩)] := by decide
  change List.Forall₂ _ (underscoreHeap.kept [] 3) layers at hrecords
  rw [hkept'] at hrecords
  obtain ⟨layer, rest, hlayer, -, rfl⟩ := List.forall₂_cons_left_iff.mp hrecords
  obtain ⟨rfl, -⟩ := List.cons.inj hlayers
  have hdiffer : "y" ≠ "x" := by decide
  generalize "y" = y at hlayer hdiffer
  cases hlayer
  exact absurd rfl hdiffer

end DocumentTypes

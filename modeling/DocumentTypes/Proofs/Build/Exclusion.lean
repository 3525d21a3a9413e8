import DocumentTypes.Proofs.Build.EmbeddingCycle
import DocumentTypes.Proofs.Build.Positions

/-!
Exclusion at every depth. What a build registers, also when it fails, belongs to a position that
paths lead to which are not excluded, and none of the paths recorded there is excluded
(`World.Fulfils.name_notMem_exclude`). A nested type takes its class from the request, its name and
description from the type that it is nested in and the path it is for, and has no overrides
(`World.Fulfils.type_eq_nested`). When a build fails, what is wrong is found at such a position, too
(`SchemaHeap.Fault`, `fault_of_build`): whatever lies below excluded paths only does no harm.
-/

set_option autoImplicit false

namespace DocumentTypes

open World

variable {P : Producers} {heap : SchemaHeap} {registry : RegistryId} {request : BuildRequest P}
  {w built : World P}

/-- The field that is assigned, unless it is a whole map. -/
def FieldLayer.name? {F M : Type} : FieldLayer F M → Option String
  | .field name _ => some name
  | .deferred name _ => some name
  | .merge _ => none

/-! ### Registered types -/

namespace World

/-- A path is recorded under its own name. -/
theorem Records.name?_eq {name field : String} {schema : SchemaId} {d : PathDescriptor SchemaLink}
    {layer : FieldLayer (DeferredField P) (DeferredMap P)}
    (h : w.Records registry name schema (field, d) layer) : layer.name? = some field := by
  cases h with
  | reference field typeName isArray => rfl
  | primitive field isArray hscalar => rfl
  | itself field isArray hself => rfl
  | nested field isArray hother hlookup => rfl

/-- No field of a type that fulfils a request has an excluded name, apart from its overrides. -/
theorem Fulfils.name_notMem_exclude {t : TypeId} (h : w.Fulfils heap registry request t)
    {layer : FieldLayer (DeferredField P) (DeferredMap P)} (hlayer : layer ∈ (w.typeAt t).fields)
    {field : String} (hname : layer.name? = some field) : field ∉ request.exclude := by
  obtain ⟨layers, htype, hlayers⟩ := h.recorded
  rw [htype, BuildRequest.mem_fields_type] at hlayer
  rcases hlayer with hrecorded | rfl | rfl
  · obtain ⟨⟨field', d⟩, hkept, hrecords⟩ := exists_partner_of_mem hlayers.flip hrecorded
    obtain rfl := Option.some.inj (hname.symm.trans hrecords.name?_eq)
    exact (SchemaHeap.mem_kept.mp hkept).2
  · exact absurd hname (by simp [FieldLayer.name?])
  · exact absurd hname (by simp [FieldLayer.name?])

end World

theorem BuildRequest.type_nested (parent : BuildRequest P) (field : String) (target : SchemaId)
    (layers : FieldThunk (DeferredField P) (DeferredMap P)) :
    (parent.nested field target).type layers =
      ⟨subFieldName parent.name field, some (subFieldDescription parent.name field),
        parent.classKind, layers ++ [.merge (.ready ∅), .merge (.ready ∅)]⟩ := by
  rw [BuildRequest.type, BuildRequest.nested, FieldThunk.merge, FieldThunk.merge, List.append_assoc]
  rfl

/-- The type that is generated for the embedding schema has the type that is registered under the
nested name in its field. -/
theorem field_mem_of_generatedFrom {result : Except BuildError TypeId} {parent field : String}
    {enclosing target : SchemaId} {d : PathDescriptor SchemaLink} {t u : TypeId}
    (hheld : w.HasRegistry registry) (hbuild : w.build heap registry request = (result, built))
    (hparent : Call.GeneratedFrom heap registry ⟨[], request, w⟩ parent enclosing u)
    (hkept : (field, d) ∈ heap.kept request.exclude enclosing)
    (hother : d.otherSchema? enclosing = some target)
    (hlookup : built.lookup registry (subFieldName parent field) = some t) :
    .field field (.ofType (.listIf d.isArray (.named t))) ∈ (built.typeAt u).fields := by
  obtain ⟨r, rfl, rfl, hexclude, -, hfulfils⟩ := hparent.fulfils hheld hbuild
  rw [← hexclude] at hkept
  obtain ⟨v, hregistered, hfield⟩ := hfulfils.nested hkept hother
  obtain rfl := Option.some.inj (hlookup.symm.trans hregistered)
  exact hfield

/-! ### Failures -/

/-- Something is wrong with a request: it has no name, or down from its schema, past excluded paths,
there is a schema without paths, a path of an unknown kind, a path to a schema that is gone, or a
cycle. -/
inductive SchemaHeap.Fault (heap : SchemaHeap) (exclude : List String) (name : String)
    (schema : SchemaId) : BuildError → Prop
  | unnamed (hname : name = "") : Fault heap exclude name schema (.missingOption .name)
  | empty {position : String} {place : SchemaId}
      (hposition : EmbeddedAt heap exclude name schema position place)
      (hempty : heap.paths place = []) : Fault heap exclude name schema (.missingOption .schema)
  | unknownKind {position field : String} {place : SchemaId} {d : PathDescriptor SchemaLink}
      {kind : PrimitiveKind} (hposition : EmbeddedAt heap exclude name schema position place)
      (hkept : (field, d) ∈ heap.kept exclude place) (hkind : d.element = .primitive kind)
      (hunknown : kind.isKnown = false) :
      Fault heap exclude name schema (.unknownPrimitiveKind kind.tag)
  | dead {position field : String} {place target : SchemaId} {d : PathDescriptor SchemaLink}
      (hposition : EmbeddedAt heap exclude name schema position place)
      (hkept : (field, d) ∈ heap.kept exclude place)
      (hother : d.otherSchema? place = some target) (hdead : heap.isAlive target = false) :
      Fault heap exclude name schema (.missingOption .schema)
  | cycle {position : String} {place : SchemaId} {path : List String} {schemas : List SchemaId}
      (hposition : EmbeddedAt heap exclude name schema position place)
      (hname : path[0]? = some position) (hschema : schemas[0]? = some place)
      (hcycle : heap.Cycle exclude path schemas) :
      Fault heap exclude name schema (.embeddingCycle path)

/-- A build fails for what is wrong with its request. -/
theorem fault_of_build {e : BuildError} (hheld : w.HasRegistry registry)
    (h : (w.build heap registry request).1 = .error e) :
    heap.Fault request.exclude request.name request.schema e := by
  obtain ⟨c, hreaches, -, hfails⟩ := Call.exists_fails ⟨[], request, w⟩ hheld h
  have hposition : EmbeddedAt heap request.exclude request.name request.schema c.request.name
      c.request.schema := hreaches.embeddedAt
  have hexclude : c.request.exclude = request.exclude := (Call.Reaches.request_eq hreaches).1
  have hround := hfails
  cases hfails with
  | empty hempty => exact .empty hposition hempty
  | unnamed hname =>
    refine .unnamed ?_
    rcases hreaches.eq_or_isNestedName with rfl | hnested
    · exact hname
    · exact absurd hname hnested.ne_empty
  | unknownKind hkept hkind hunknown =>
    rw [hexclude] at hkept
    exact .unknownKind hposition hkept hkind hunknown
  | dead hkept hother hdead =>
    rw [hexclude] at hkept
    exact .dead hposition hkept hother hdead
  | cycle hkept hother hcycle =>
    obtain ⟨first, schemas, habove, -, hname, hschema, hcycle⟩ := hround.exists_cycle hreaches
    exact .cycle habove.embeddedAt hname hschema hcycle

/-- Exclusion and inheritance reach every depth. A type that a build registers, also when the build
fails, is that of a position that no excluded path leads to. It records the paths of its schema
that are not excluded, so that no name of its fields is excluded, apart from overrides. It is the
requested type, or it is nested in the type of another position for a path that is not excluded:
then its name and description are made of the name of that type and the path, its class is that of
the request, and it has no overrides. When the build fails, it fails for something that is wrong
down from the requested schema past all excluded paths. -/
theorem exclusion_reaches_every_depth {P : Producers} {heap : SchemaHeap} {registry : RegistryId}
    {request : BuildRequest P} {w built : World P} {result : Except BuildError TypeId}
    (hheld : w.HasRegistry registry) (hbuild : w.build heap registry request = (result, built)) :
    (∀ name t, w.lookup registry name = none → built.lookup registry name = some t →
      ∃ schema layers,
        EmbeddedAt heap request.exclude request.name request.schema name schema ∧
        List.Forall₂ (built.Records registry name schema) (heap.kept request.exclude schema)
          layers ∧
        (∀ layer ∈ (built.typeAt t).fields, ∀ field, layer.name? = some field →
          field ∉ request.exclude) ∧
        (name = request.name ∧ schema = request.schema ∧ built.typeAt t = request.type layers ∨
          ∃ parent enclosing field d,
            EmbeddedAt heap request.exclude request.name request.schema parent enclosing ∧
            (field, d) ∈ heap.kept request.exclude enclosing ∧
            d.otherSchema? enclosing = some schema ∧ name = subFieldName parent field ∧
            built.typeAt t = ⟨name, some (subFieldDescription parent field), request.classKind,
              layers ++ [.merge (.ready ∅), .merge (.ready ∅)]⟩ ∧
            ∀ u, Call.GeneratedFrom heap registry ⟨[], request, w⟩ parent enclosing u →
              .field field (.ofType (.listIf d.isArray (.named t))) ∈ (built.typeAt u).fields)) ∧
    ∀ e, result = .error e → heap.Fault request.exclude request.name request.schema e := by
  constructor
  · intro name t hnew hlookup
    obtain ⟨path, r, hunfolds, rfl, hfulfils⟩ :=
      exists_fulfils_of_newly_registered hheld hbuild hnew hlookup
    obtain ⟨hclass, hexclude⟩ := hunfolds.inherits
    obtain ⟨layers, htype, hlayers⟩ := hfulfils.recorded
    refine ⟨r.schema, layers, hunfolds.embeddedAt, ?_, ?_, ?_⟩
    · rwa [hexclude] at hlayers
    · intro layer hlayer field hname
      rw [← hexclude]
      exact hfulfils.name_notMem_exclude hlayer hname
    · cases hunfolds with
      | root => exact Or.inl ⟨rfl, rfl, htype⟩
      | @nested path parent field d target habove hkept hother =>
        rw [habove.inherits.2] at hkept
        refine Or.inr ⟨parent.name, parent.schema, field, d, habove.embeddedAt, hkept, hother, rfl,
          ?_, ?_⟩
        · rw [htype, BuildRequest.type_nested, habove.inherits.1]
          rfl
        · intro u hparent
          exact field_mem_of_generatedFrom hheld hbuild hparent hkept hother hlookup
  · rintro e rfl
    exact fault_of_build hheld (congrArg Prod.fst hbuild)

/-- Users with a home, and keys of which neither kind can be built: the one of a home is of an
unknown kind, and the one of a user is gone. -/
def userHeap : SchemaHeap :=
  ⟨#[some (.ofList
      [("home", ⟨.embedded (.shared 1), false⟩), ("key", ⟨.embedded (.shared 2), false⟩)]),
    some (.ofList
      [("city", ⟨.primitive .string, false⟩), ("key", ⟨.primitive (.other "blob"), false⟩)])]⟩

def userRequest : BuildRequest .none where
  name := "User"
  description := none
  classKind := .inputObject
  schema := 0
  exclude := ["key"]
  extend := .ready ∅
  props := .ready ∅

/-- Users are built without their keys, and so are their homes. With the keys they are refused. -/
theorem exclusion_reaches_every_depth_user :
    newWorld.HasRegistry 0 ∧ (newWorld.build userHeap 0 userRequest).1 = .ok 1 ∧
      (∃ parent field layers, "User_home" = subFieldName parent field ∧
        (newWorld.build userHeap 0 userRequest).2.typeAt 0 =
          ⟨"User_home", some (subFieldDescription parent field), .inputObject,
            layers ++ [.merge (.ready ∅), .merge (.ready ∅)]⟩ ∧
        ∀ layer ∈ ((newWorld.build userHeap 0 userRequest).2.typeAt 0).fields,
          layer.name? ≠ some "key") ∧
      (newWorld.build userHeap 0 { userRequest with exclude := [] }).1 =
        .error (.unknownPrimitiveKind "blob") ∧
      userHeap.Fault [] "User" 0 (.unknownPrimitiveKind "blob") := by
  have hheld : newWorld.HasRegistry 0 := by decide
  have hresult : (newWorld.build userHeap 0 userRequest).1 = .ok 1 := by decide +kernel
  have herror : (newWorld.build userHeap 0 { userRequest with exclude := [] }).1 =
      .error (.unknownPrimitiveKind "blob") := by decide +kernel
  have hbuild : newWorld.build userHeap 0 userRequest =
      (.ok 1, (newWorld.build userHeap 0 userRequest).2) := Prod.ext hresult rfl
  have hrefused : newWorld.build userHeap 0 { userRequest with exclude := [] } =
      (.error (.unknownPrimitiveKind "blob"),
        (newWorld.build userHeap 0 { userRequest with exclude := [] }).2) := Prod.ext herror rfl
  obtain ⟨schema, layers, -, -, hnames, hplace⟩ :=
    (exclusion_reaches_every_depth hheld hbuild).1 "User_home" 0 (by decide) (by decide +kernel)
  have hfault := (exclusion_reaches_every_depth hheld hrefused).2 _ rfl
  rcases hplace with ⟨hroot, -, -⟩ | ⟨parent, enclosing, field, d, -, -, -, hname, htype, -⟩
  · exact absurd hroot (by decide)
  · refine ⟨hheld, hresult, ⟨parent, field, layers, hname, htype, ?_⟩, herror, hfault⟩
    intro layer hlayer hkey
    exact absurd List.mem_cons_self (hnames layer hlayer "key" hkey)

end DocumentTypes

import DocumentTypes.Proofs.Build.Declarations
import DocumentTypes.Proofs.Build.PlainNames

/-!
When building succeeds. A schema is well-formed inside the schemas that enclose it when it has a
path, its primitive paths are of known kinds, and the other schemas that it embeds live, do not
enclose it and are well-formed inside it (`SchemaHeap.WellFormed`). A request for a well-formed
schema succeeds whatever the registry holds: a type that is found there already only saves work. The
converse needs that nothing is found there (`Call.wellFormed_of_run_eq_ok`), since a type that is
found hides the schema that it was not built from.
-/

set_option autoImplicit false

namespace DocumentTypes

open World

variable {P : Producers} {heap : SchemaHeap} {registry : RegistryId} {ancestors : Lineage}
  {request : BuildRequest P} {w w' : World P}

theorem PrimitiveKind.isKnown_iff {kind : PrimitiveKind} :
    kind.isKnown = true ↔ ∃ scalar, kind.scalar = .ok scalar := by
  cases kind <;> simp [isKnown, PrimitiveKind.scalar, classify]

/-- The path is not a primitive, or one of a known kind. -/
def PathDescriptor.isKnown (d : PathDescriptor SchemaLink) : Bool :=
  match d.element with
  | .primitive kind => kind.isKnown
  | _ => true

/-- The schema can be built inside the enclosing ones, without the excluded paths. Its other paths
are references, primitives of known kinds, links to itself, and links to living schemas that do not
enclose it and can be built inside it. -/
inductive SchemaHeap.WellFormed (heap : SchemaHeap) (exclude : List String) :
    List SchemaId → SchemaId → Prop
  | schema {enclosing : List SchemaId} {schema : SchemaId} (hpaths : heap.paths schema ≠ [])
      (hknown : ∀ path ∈ heap.kept exclude schema, path.2.isKnown = true)
      (hlive : ∀ path ∈ heap.kept exclude schema, ∀ target,
        path.2.otherSchema? schema = some target →
        heap.isAlive target = true ∧ target ∉ enclosing)
      (hnested : ∀ path ∈ heap.kept exclude schema, ∀ target,
        path.2.otherSchema? schema = some target →
        WellFormed heap exclude (enclosing ++ [schema]) target) :
      WellFormed heap exclude enclosing schema

/-- Places are well-formed inside of animals, and animals are well-formed. -/
theorem wellFormed_animal : animalHeap.WellFormed [] [] 0 := by
  have hplace : animalHeap.WellFormed [] [0] 1 := by
    have hother : ∀ path ∈ animalHeap.kept [] 1, path.2.otherSchema? 1 = none := by decide
    exact .schema (by decide) (by decide)
      (fun path hkept target h ↦ absurd ((hother path hkept).symm.trans h) (by simp))
      fun path hkept target h ↦ absurd ((hother path hkept).symm.trans h) (by simp)
  have hother : ∀ path ∈ animalHeap.kept [] 0,
      path.2.otherSchema? 0 = none ∨ path.2.otherSchema? 0 = some 1 := by decide
  have htarget : ∀ path ∈ animalHeap.kept [] 0, ∀ target,
      path.2.otherSchema? 0 = some target → target = 1 := by
    intro path hkept target h
    rcases hother path hkept with hnone | hone
    · exact absurd (hnone.symm.trans h) (by simp)
    · exact Option.some.inj (h.symm.trans hone)
  refine .schema (by decide) (by decide) (fun path hkept target h ↦ ?_) fun path hkept target h ↦ ?_
  · obtain rfl := htarget path hkept target h
    exact ⟨by decide, List.not_mem_nil⟩
  · obtain rfl := htarget path hkept target h
    exact hplace

/-! ### Well-formed schemas are built -/

/-- A path that embeds no other schema fails for an unknown kind only. -/
theorem unknown_of_pathLayer_error {field : String} {d : PathDescriptor SchemaLink}
    {nested : (field : String) → (target : SchemaId) → target ≠ request.schema → World P →
      Except BuildError TypeId × World P}
    {e : BuildError} (hnone : d.otherSchema? request.schema = none)
    (h : pathLayer request registry nested field d w = (.error e, w')) :
    d.isKnown = false := by
  obtain ⟨element, isArray⟩ := d
  cases element with
  | reference typeName => exact absurd h (by simp [pathLayer])
  | primitive kind =>
    rw [← Bool.not_eq_true]
    intro hknown
    obtain ⟨scalar, hscalar⟩ := PrimitiveKind.isKnown_iff.mp hknown
    exact absurd h (by simp [pathLayer, hscalar])
  | embedded link =>
    have hself : link.target = request.schema := by
      by_contra hother
      exact absurd ((if_neg hother).symm.trans hnone) (by simp)
    exact absurd h (by simp [pathLayer, hself])

/-- A walk passes paths of known kinds whose nested builds succeed. -/
theorem walk_ne_error (hheld : w.HasRegistry registry)
    (hknown : ∀ path ∈ heap.kept request.exclude request.schema, path.2.isKnown = true)
    (hnested : ∀ path ∈ heap.kept request.exclude request.schema, ∀ target,
      path.2.otherSchema? request.schema = some target →
      ∀ (hself : target ≠ request.schema) (w : World P), w.HasRegistry registry →
      ∃ t, (nestedBuild heap registry ancestors request path.1 target hself w).1 = .ok t)
    (e : BuildError) :
    walk request registry (nestedBuild heap registry ancestors request)
      (heap.kept request.exclude request.schema) w ≠ (.error e, w') := by
  intro hwalk
  obtain ⟨before, field, d, after, layers, w₁, hsplit, hbefore, hlayer⟩ := walk_eq_error hwalk
  have hkept := SchemaHeap.mem_kept.mpr (SchemaHeap.of_kept_eq_append hsplit)
  rcases pathLayer_cases hlayer with ⟨hnone, -, -⟩ | ⟨target, hself, hother, hresult⟩
  · have hunknown := unknown_of_pathLayer_error hnone hlayer
    exact absurd ((hknown _ hkept).symm.trans hunknown) (by simp)
  · obtain ⟨t, ht⟩ := hnested _ hkept target hother hself w₁
      ((walk_grows_nested hbefore).hasRegistry hheld)
    rcases hresult with ⟨e', hrun, -⟩ | ⟨t, -, hok⟩
    · exact absurd ((congrArg Prod.fst hrun).symm.trans ht) (by simp)
    · exact absurd hok (by simp)

/-- A request for a well-formed schema is built, whatever is registered: no path of the walk fails,
and the name is still free afterwards. The induction is on the schemas below, so the enclosing ones
are those of the lineage, whatever the names in it are. -/
theorem SchemaHeap.WellFormed.build_ok {exclude : List String} {enclosing : List SchemaId}
    {schema : SchemaId} (h : heap.WellFormed exclude enclosing schema) (ancestors : Lineage)
    (request : BuildRequest P) (w : World P) (henclosing : ancestors.schemas = enclosing)
    (hschema : request.schema = schema) (hexclude : request.exclude = exclude)
    (hname : request.name ≠ "") (hheld : w.HasRegistry registry) :
    ∃ t, (buildWithin heap registry ancestors request w).1 = .ok t := by
  induction h generalizing ancestors request w with
  | schema hpaths hknown hlive hnested ih =>
    subst henclosing hschema hexclude
    have hbelow : ∀ path ∈ heap.kept request.exclude request.schema, ∀ target,
        path.2.otherSchema? request.schema = some target →
        ∀ (hself : target ≠ request.schema) (w : World P), w.HasRegistry registry →
        ∃ t, (nestedBuild heap registry ancestors request path.1 target hself w).1 = .ok t := by
      intro path hkept target hother hself w hheld
      obtain ⟨hlives, hcycle⟩ := hlive path hkept target hother
      rw [nestedBuild, nestedStep, if_neg hcycle, if_pos hlives]
      refine ih path hkept target hother _ _ w ?_ rfl rfl
        (isNestedName_subFieldName request.name path.1).ne_empty hheld
      rw [Lineage.schemas, List.map_append]
      rfl
    rcases hrun : buildWithin heap registry ancestors request w with ⟨e | t, w'⟩
    swap
    · exact ⟨t, rfl⟩
    rcases buildWithin_cases hrun with ⟨hempty | hunnamed, -, -⟩ | ⟨t, -, -, hok⟩ |
      ⟨-, hnew, ⟨e', hwalk, -⟩ | ⟨layers, w₁, hwalk, hconstruct⟩⟩
    · exact absurd hempty hpaths
    · exact absurd hunnamed hname
    · exact absurd hok (by simp)
    · exact absurd hwalk (walk_ne_error hheld hknown hbelow e')
    · exact absurd (mem_keys_of_construct_error hconstruct)
        (notMem_keys_of_walk hheld hnew hwalk)

/-! ### What is built is well-formed -/

/-- A path that is recorded is of a known kind. -/
theorem World.Records.isKnown {name field : String} {schema : SchemaId}
    {d : PathDescriptor SchemaLink} {layer : FieldLayer (DeferredField P) (DeferredMap P)}
    (h : w.Records registry name schema (field, d) layer) : d.isKnown = true := by
  cases h with
  | reference field typeName isArray => rfl
  | primitive field isArray hscalar => exact PrimitiveKind.isKnown_iff.mpr ⟨_, hscalar⟩
  | itself field isArray hself => rfl
  | nested field isArray hother hlookup => rfl

namespace Call

/-- A call that finds nothing registered succeeds on well-formed schemas only. -/
theorem wellFormed_of_run_eq_ok (c : Call P) {t : TypeId} (hheld : c.world.HasRegistry registry)
    (hplain : ∀ call, Reaches heap registry c call →
      ∀ path ∈ heap.kept call.request.exclude call.request.schema, IsPlainName path.1)
    (hmisses : c.world.Misses registry c.request.name)
    (h : (c.run heap registry).1 = .ok t) :
    c.request.name ≠ "" ∧
      heap.WellFormed c.request.exclude c.ancestors.schemas c.request.schema := by
  obtain ⟨ancestors, request, w⟩ := c
  induction ancestors, request, w using nested_induction heap generalizing t with
  | step ancestors request w ih =>
    have hgenerates : Generates heap registry ⟨ancestors, request, w⟩ t :=
      ⟨hmisses.lookup_eq_none, h⟩
    obtain ⟨hname, hpaths, -⟩ := hgenerates.exists_walk
    obtain ⟨layers, -, hlayers⟩ := (hgenerates.fulfils hheld).recorded
    have hcalls : ∀ path ∈ heap.kept request.exclude request.schema, ∀ target,
        path.2.otherSchema? request.schema = some target →
        (heap.isAlive target = true ∧ target ∉ ancestors.schemas) ∧
          heap.WellFormed request.exclude (ancestors.schemas ++ [request.schema]) target := by
      rintro ⟨field, d⟩ hkept target hother
      obtain ⟨hcycle, hlives, w₁, u, hmakes, hok⟩ := hgenerates.exists_makes hkept hother
      obtain ⟨hself, -⟩ := PathDescriptor.otherSchema?_eq_some hother
      have hbelow := ih field target w₁ hself hcycle hlives (hmakes.grows_world.hasRegistry hheld)
        (fun call hcall ↦ hplain call (Relation.ReflTransGen.head hmakes hcall))
        (hmakes.misses hheld (hplain _ Relation.ReflTransGen.refl) hmisses) hok
      have henclosing : Lineage.schemas (ancestors ++ [(request.name, request.schema)]) =
          ancestors.schemas ++ [request.schema] := List.map_append
      rw [henclosing] at hbelow
      exact ⟨⟨hlives, hcycle⟩, hbelow.2⟩
    refine ⟨hname, .schema hpaths ?_ (fun path hkept target hother ↦
      (hcalls path hkept target hother).1) fun path hkept target hother ↦
      (hcalls path hkept target hother).2⟩
    rintro ⟨field, d⟩ hkept
    obtain ⟨layer, -, hrecords⟩ := exists_partner_of_mem hlayers hkept
    exact hrecords.isKnown

end Call

theorem isPlainName_of_mem_animalHeap (schema : SchemaId) :
    ∀ path ∈ animalHeap.paths schema, IsPlainName path.1 := by
  match schema with
  | 0 => decide
  | 1 => decide
  | n + 2 => exact fun path hpath ↦ absurd hpath List.not_mem_nil

/-- When building succeeds. Whatever the registry holds, a request with a name for a well-formed
schema is built. Where the paths of the reachable schemas have no underscores and the registry holds
neither the name nor a name nested in it, nothing else is. -/
theorem build_succeeds_iff_wellFormed (heap : SchemaHeap) (registry : RegistryId)
    (request : BuildRequest P) (w : World P) (hheld : w.HasRegistry registry) :
    (request.name ≠ "" → heap.WellFormed request.exclude [] request.schema →
      ∃ t, (w.build heap registry request).1 = .ok t) ∧
    ((∀ schema ∈ heap.reachable request.schema, ∀ path ∈ heap.paths schema, IsPlainName path.1) →
      w.Misses registry request.name →
      (∃ t, (w.build heap registry request).1 = .ok t) →
      request.name ≠ "" ∧ heap.WellFormed request.exclude [] request.schema) := by
  constructor
  · intro hname hwellFormed
    exact hwellFormed.build_ok [] request w rfl rfl rfl hname hheld
  · rintro hplain hmisses ⟨t, hok⟩
    refine Call.wellFormed_of_run_eq_ok ⟨[], request, w⟩ hheld (fun call hcall path hpath ↦ ?_)
      hmisses hok
    exact hplain _ (hcall.reachable _ List.mem_cons_self) path (SchemaHeap.mem_kept.mp hpath).1

/-- Animals are built as they are well-formed, and are well-formed as they are built. -/
theorem build_succeeds_iff_wellFormed_animal :
    newWorld.HasRegistry 0 ∧ newWorld.Misses 0 animalRequest.name ∧
      (∃ t, (newWorld.build animalHeap 0 animalRequest).1 = .ok t) ∧
      animalRequest.name ≠ "" ∧ animalHeap.WellFormed [] [] 0 := by
  have hheld : newWorld.HasRegistry 0 := by decide
  have hmisses : newWorld.Misses 0 animalRequest.name := misses_of_registryAt_eq_empty rfl _
  obtain ⟨hbuilt, hnecessary⟩ := build_succeeds_iff_wellFormed animalHeap 0 animalRequest newWorld
    hheld
  exact ⟨hheld, hmisses, hbuilt (by decide) wellFormed_animal,
    hnecessary (fun schema _ ↦ isPlainName_of_mem_animalHeap schema) hmisses ⟨1, by decide +kernel⟩⟩

end DocumentTypes

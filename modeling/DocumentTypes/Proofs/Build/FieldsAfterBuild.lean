import DocumentTypes.Proofs.Build.Recorded

/-!
The fields of a built type in the worlds after its build. `World.referenceFields` computes them from
the requested schema, with no layers: each path that is not excluded gives one assignment
(`World.pathSpec`), the overrides give theirs, and of the assignments to one name the first decides
on the place and the last on the value (`OrderedMap.lastAssigned`). Evaluation gives the same, in
every later world and whatever producers from outside do.
-/

set_option autoImplicit false

namespace DocumentTypes

variable {P : Producers} {σ : Type} {heap : SchemaHeap} {registry : RegistryId}
  {request : BuildRequest P}

namespace World

/-- The field of the type `t` for a path of the requested schema, now. A reference is what the
registry holds now, and never a list; the schema itself is `t`; `nestedType` gives the types of the
other schemas that are embedded. -/
def pathSpec (now : World P) (registry : RegistryId) (request : BuildRequest P) (t : TypeId)
    (nestedType : String → TypeId) (field : String) (d : PathDescriptor SchemaLink) :
    Except BuildError FieldSpec :=
  match d.element with
  | .reference typeName =>
    match now.lookup registry typeName with
    | some type => .ok (.ofType (.named type))
    | none => .error (.unresolvedReference typeName request.name)
  | .primitive kind => kind.scalar.map fun scalar ↦ .ofType (.listIf d.isArray (.scalar scalar))
  | .embedded link =>
    if link.target = request.schema then .ok (.ofType (.listIf d.isArray (.named t)))
    else .ok (.ofType (.listIf d.isArray (.named (nestedType field))))

/-- The assignments that the paths give, in order. The first path that has no field ends it. -/
def pathFields (now : World P) (registry : RegistryId) (request : BuildRequest P) (t : TypeId)
    (nestedType : String → TypeId) :
    List (String × PathDescriptor SchemaLink) → Except BuildError (List (String × FieldSpec))
  | [] => .ok []
  | (field, d) :: rest =>
    match now.pathSpec registry request t nestedType field d with
    | .error e => .error e
    | .ok spec => (now.pathFields registry request t nestedType rest).map ((field, spec) :: ·)

/-- The fields of the type `t` that was built for a request, now: those of its paths, and on top of
them the pairs of `extend` and then those of `props`. The first failure is the failure. -/
def referenceFields (now : World P) (outside : Outside P σ) (heap : SchemaHeap)
    (registry : RegistryId) (request : BuildRequest P) (t : TypeId) (nestedType : String → TypeId)
    (s : σ) : Except BuildError (List (String × FieldSpec)) × σ :=
  match now.pathFields registry request t nestedType
      (heap.kept request.exclude request.schema) with
  | .error e => (.error e, s)
  | .ok generated =>
    match request.extend.resolve (now.runner outside (some t)) s with
    | (.error e, s) => (.error e, s)
    | (.ok extend, s) =>
      match request.props.resolve (now.runner outside (some t)) s with
      | (.error e, s) => (.error e, s)
      | (.ok props, s) =>
        (.ok (OrderedMap.lastAssigned (generated ++ extend.entries ++ props.entries)), s)

/-- A recorded layer is evaluated to the field of its path. -/
theorem evaluateOnto_cons_of_records {built now : World P} (outside : Outside P σ) (t : TypeId)
    {nestedType : String → TypeId}
    (hnested : ∀ field u, built.lookup registry (subFieldName request.name field) = some u →
      nestedType field = u)
    {field : String} {d : PathDescriptor SchemaLink}
    {layer : FieldLayer (DeferredField P) (DeferredMap P)}
    (h : built.Records registry request.name request.schema (field, d) layer)
    (fields : FieldMap) (rest : FieldThunk (DeferredField P) (DeferredMap P)) (s : σ) :
    FieldThunk.evaluateOnto (now.runner outside (some t)) fields (layer :: rest) s =
      match now.pathSpec registry request t nestedType field d with
      | .error e => (.error e, s)
      | .ok spec =>
        FieldThunk.evaluateOnto (now.runner outside (some t)) (fields.insert field spec) rest
          s := by
  cases h with
  | reference field typeName isArray =>
    simp only [FieldThunk.evaluateOnto, runner, produceField, pathSpec]
    cases now.lookup registry typeName with
    | none => rfl
    | some type => rfl
  | primitive field isArray hscalar =>
    simp only [FieldThunk.evaluateOnto, pathSpec, hscalar, Except.map]
  | itself field isArray hself =>
    simp only [FieldThunk.evaluateOnto, runner, produceField, pathSpec, if_pos hself]
  | nested field isArray hother hlookup =>
    simp only [FieldThunk.evaluateOnto, pathSpec, if_neg hother, hnested field _ hlookup]

/-- Recorded layers are evaluated to the assignments of their paths. -/
theorem evaluateOnto_of_records {built now : World P} (outside : Outside P σ) (t : TypeId)
    {nestedType : String → TypeId}
    (hnested : ∀ field u, built.lookup registry (subFieldName request.name field) = some u →
      nestedType field = u)
    {paths : List (String × PathDescriptor SchemaLink)}
    {layers : FieldThunk (DeferredField P) (DeferredMap P)}
    (h : List.Forall₂ (built.Records registry request.name request.schema) paths layers)
    (fields : FieldMap) (rest : FieldThunk (DeferredField P) (DeferredMap P)) (s : σ) :
    FieldThunk.evaluateOnto (now.runner outside (some t)) fields (layers ++ rest) s =
      match now.pathFields registry request t nestedType paths with
      | .error e => (.error e, s)
      | .ok generated =>
        FieldThunk.evaluateOnto (now.runner outside (some t)) (fields.insertAll generated) rest
          s := by
  induction h generalizing fields with
  | nil => rfl
  | @cons path layer paths layers hlayer _ ih =>
    obtain ⟨field, d⟩ := path
    rw [List.cons_append, evaluateOnto_cons_of_records outside t hnested hlayer, pathFields]
    cases now.pathSpec registry request t nestedType field d with
    | error e => rfl
    | ok spec =>
      show FieldThunk.evaluateOnto _ (fields.insert field spec) (layers ++ rest) s = _
      rw [ih]
      cases now.pathFields registry request t nestedType paths with
      | error e => rfl
      | ok generated => rfl

/-- Two overrides are evaluated on top of what is there: the pairs of the first and then those of
the second. -/
theorem evaluateOnto_overrides (run : Runner (DeferredField P) (DeferredMap P) σ)
    (first second : FieldSource (DeferredMap P)) (fields : FieldMap) (s : σ) :
    FieldThunk.evaluateOnto run fields [.merge first, .merge second] s =
      match first.resolve run s with
      | (.error e, s) => (.error e, s)
      | (.ok extend, s) =>
        match second.resolve run s with
        | (.error e, s) => (.error e, s)
        | (.ok props, s) => (.ok (fields.insertAll (extend.entries ++ props.entries)), s) := by
  rcases hfirst : first.resolve run s with ⟨e | extend, s₁⟩
  · simp only [FieldThunk.evaluateOnto, hfirst]
  · rcases hsecond : second.resolve run s₁ with ⟨e | props, s₂⟩
    · simp only [FieldThunk.evaluateOnto, hfirst, hsecond]
    · simp only [FieldThunk.evaluateOnto, hfirst, hsecond, OrderedMap.insertAll_append]

end World

open World

/-- The fields of a type that is built under a new name are those that the reference computes, in
every later world and for all producers from outside: with the same pairs in the same order, the
same failure, and the same effect on the state outside. The nested types are those that the
registry holds under the nested names at the end of the build. -/
theorem fields_after_build {w built : World P} {t : TypeId} (halive : w.HasRegistry registry)
    (hnew : w.lookup registry request.name = none)
    (hbuild : w.build heap registry request = (.ok t, built)) :
    ∃ nestedType : String → TypeId,
      (∀ field d target, (field, d) ∈ heap.kept request.exclude request.schema →
        d.otherSchema? request.schema = some target →
        built.lookup registry (subFieldName request.name field) = some (nestedType field)) ∧
      ∀ (later : World P), Later built later → ∀ {σ : Type} (outside : Outside P σ) (s : σ),
        ((later.fields outside t s).1.map OrderedMap.entries, (later.fields outside t s).2) =
          later.referenceFields outside heap registry request t nestedType s := by
  have hfulfils : built.Fulfils heap registry request t :=
    fulfils_of_buildWithin halive hnew hbuild
  obtain ⟨layers, htype, hlayers⟩ := hfulfils.recorded
  obtain ⟨nestedType, hnested⟩ : ∃ nestedType : String → TypeId, ∀ field u,
      built.lookup registry (subFieldName request.name field) = some u → nestedType field = u := by
    refine ⟨fun field ↦ (built.lookup registry (subFieldName request.name field)).getD 0, ?_⟩
    intro field u hlookup
    dsimp only
    rw [hlookup, Option.getD_some]
  refine ⟨nestedType, ?_, ?_⟩
  · intro field d target hkept hother
    obtain ⟨u, hlookup, -⟩ := hfulfils.nested hkept hother
    rw [hlookup, hnested field u hlookup]
  · intro later hlater σ outside s
    have hrecorded : (later.typeAt t).fields =
        layers ++ [.merge request.extend, .merge request.props] := by
      rw [hlater.typeAt hfulfils.lt_nextType, htype]
      exact List.append_assoc layers [.merge request.extend] [.merge request.props]
    rw [fields, FieldThunk.evaluate, hrecorded, evaluateOnto_of_records outside t hnested hlayers,
      referenceFields]
    cases later.pathFields registry request t nestedType
      (heap.kept request.exclude request.schema) with
    | error e => rfl
    | ok generated =>
      dsimp only
      rw [evaluateOnto_overrides]
      rcases request.extend.resolve (later.runner outside (some t)) s with ⟨e | extend, s₁⟩
      · rfl
      · dsimp only
        rcases request.props.resolve (later.runner outside (some t)) s₁ with ⟨e | props, s₂⟩
        · rfl
        · dsimp only
          rw [List.append_assoc generated, ← OrderedMap.insertAll_append]
          exact congrArg (fun pairs ↦ (Except.ok pairs, s₂)) (OrderedMap.entries_ofList _)

/-- An animal's name has become an identifier at the place of the name, its young are animals of the
same type, and its owner is the person that is registered later. -/
theorem fields_after_build_animal :
    newWorld.HasRegistry 0 ∧ newWorld.lookup 0 "Animal" = none ∧
      (newWorld.build animalHeap 0 animalRequest).1 = .ok 1 ∧
      ∀ (later : World .none) (owner : TypeId),
        Later (newWorld.build animalHeap 0 animalRequest).2 later →
        later.lookup 0 "Person" = some owner →
        (later.fields Outside.none 1 ()).1.map OrderedMap.entries =
          .ok [("name", .ofType (.scalar .id)), ("home", .ofType (.named 0)),
            ("young", .ofType (.list (.named 1))), ("owner", .ofType (.named owner))] := by
  have halive : newWorld.HasRegistry 0 := by decide
  have hnew : newWorld.lookup 0 animalRequest.name = none := by decide
  obtain ⟨nestedType, hnested, hfields⟩ := fields_after_build halive hnew build_animal
  have hhome : (newWorld.build animalHeap 0 animalRequest).2.lookup 0 "Animal_home" = some 0 := by
    decide +kernel
  have hplace : some 0 = some (nestedType "home") :=
    hhome.symm.trans (hnested "home" ⟨.embedded (.shared 1), false⟩ 1 (by decide) rfl)
  refine ⟨halive, hnew, congrArg Prod.fst build_animal, fun later owner hlater howner ↦ ?_⟩
  have hkept : animalHeap.kept animalRequest.exclude animalRequest.schema =
      [("name", ⟨.primitive .string, false⟩), ("home", ⟨.embedded (.shared 1), false⟩),
        ("young", ⟨.embedded (.cyclic 0), true⟩), ("owner", ⟨.reference "Person", false⟩)] := by
    decide
  have hpaths : later.pathFields 0 animalRequest 1 nestedType
        (animalHeap.kept animalRequest.exclude animalRequest.schema) =
      .ok [("name", .ofType (.scalar .string)), ("home", .ofType (.named 0)),
        ("young", .ofType (.list (.named 1))), ("owner", .ofType (.named owner))] := by
    rw [hkept]
    simp only [pathFields, pathSpec, howner, ← Option.some.inj hplace]
    rfl
  refine (congrArg Prod.fst (hfields later hlater Outside.none ())).trans ?_
  rw [referenceFields, hpaths]
  rfl

end DocumentTypes

import DocumentTypes.Build

/-!
One level of building, with the nested builds left open. `buildStep` is the body of building with
its recursive calls given by a parameter, and building is its fixed point
(`buildWithin_eq_buildStep`). Only the paths that are not excluded matter (`SchemaHeap.kept`,
`walk_kept`), and of these only the ones that embed another schema
(`PathDescriptor.otherSchema?`) build anything (`pathLayer_cases`). A walk over two lists of paths
is one after the other (`walk_append`), and a walk that fails passed the paths before the
failing one (`walk_eq_error`).
-/

set_option autoImplicit false

namespace DocumentTypes

/-- The schema that a path of `schema` embeds, when it is another one. -/
def PathDescriptor.otherSchema? (schema : SchemaId) (d : PathDescriptor SchemaLink) :
    Option SchemaId :=
  match d.element with
  | .embedded link => if link.target = schema then none else some link.target
  | _ => none

theorem PathDescriptor.otherSchema?_eq_some {schema target : SchemaId}
    {d : PathDescriptor SchemaLink} (h : d.otherSchema? schema = some target) :
    target ≠ schema ∧ ∃ link, d.element = .embedded link ∧ link.target = target := by
  unfold otherSchema? at h
  split at h
  · next link hlink =>
    split at h
    · exact absurd h (by simp)
    · next hother =>
      obtain rfl := Option.some.inj h
      exact ⟨hother, link, hlink, rfl⟩
  · exact absurd h (by simp)

/-- The paths of the schema at a place that are not excluded, in declaration order. -/
def SchemaHeap.kept (heap : SchemaHeap) (exclude : List String) (schema : SchemaId) :
    List (String × PathDescriptor SchemaLink) :=
  (heap.paths schema).filter fun path ↦ path.1 ∉ exclude

theorem SchemaHeap.mem_kept {heap : SchemaHeap} {exclude : List String} {schema : SchemaId}
    {path : String × PathDescriptor SchemaLink} :
    path ∈ heap.kept exclude schema ↔ path ∈ heap.paths schema ∧ path.1 ∉ exclude := by
  rw [kept, List.mem_filter, decide_eq_true_iff]

theorem SchemaHeap.of_kept_eq_append {heap : SchemaHeap} {exclude : List String}
    {schema : SchemaId} {before after : List (String × PathDescriptor SchemaLink)}
    {path : String × PathDescriptor SchemaLink}
    (h : heap.kept exclude schema = before ++ path :: after) :
    path ∈ heap.paths schema ∧ path.1 ∉ exclude := by
  apply mem_kept.mp
  rw [h]
  exact List.mem_append_cons_self

variable {P : Producers}

/-- How types are built inside enclosing ones. -/
abbrev Builder (P : Producers) :=
  Lineage → BuildRequest P → World P → Except BuildError TypeId × World P

/-- How the type nested under a field is built, when `build` builds requests. -/
def nestedStep (heap : SchemaHeap) (build : Builder P) (ancestors : Lineage)
    (request : BuildRequest P) (field : String) (target : SchemaId)
    (_hself : target ≠ request.schema) (w : World P) : Except BuildError TypeId × World P :=
  if target ∈ ancestors.schemas then
    (.error (.embeddingCycle (embeddingCycle ancestors request.name field target)), w)
  else if heap.isAlive target = true then
    build (ancestors ++ [(request.name, request.schema)]) (request.nested field target) w
  else (.error (.missingOption .schema), w)

/-- One level of building, when `build` builds the nested requests. -/
def buildStep (heap : SchemaHeap) (registry : RegistryId) (build : Builder P) : Builder P :=
  fun ancestors request w ↦
    if (heap.paths request.schema).isEmpty then (.error (.missingOption .schema), w)
    else if request.name.isEmpty then (.error (.missingOption .name), w)
    else
      match w.lookup registry request.name with
      | some type => (.ok type, w)
      | none =>
        match walk request registry (nestedStep heap build ancestors request)
            (heap.kept request.exclude request.schema) w with
        | (.error e, w) => (.error e, w)
        | (.ok generated, w) => w.construct registry (request.type generated)

/-- How building builds the type nested under a field. -/
abbrev nestedBuild (heap : SchemaHeap) (registry : RegistryId) (ancestors : Lineage)
    (request : BuildRequest P) (field : String) (target : SchemaId)
    (hself : target ≠ request.schema) (w : World P) : Except BuildError TypeId × World P :=
  nestedStep heap (buildWithin heap registry) ancestors request field target hself w

section Walk

variable {request : BuildRequest P} {registry : RegistryId}
  {nested nested' : (field : String) → (target : SchemaId) → target ≠ request.schema → World P →
    Except BuildError TypeId × World P}

/-- A walk passes the excluded paths over. -/
theorem walk_kept (paths : List (String × PathDescriptor SchemaLink)) (w : World P) :
    walk request registry nested (paths.filter fun path ↦ path.1 ∉ request.exclude) w =
      walk request registry nested paths w := by
  induction paths generalizing w with
  | nil => rfl
  | cons path rest ih =>
    obtain ⟨field, d⟩ := path
    by_cases hexclude : field ∈ request.exclude
    · rw [List.filter_cons_of_neg (by simpa using hexclude), ih, walk, if_pos hexclude]
    · rw [List.filter_cons_of_pos (by simpa using hexclude), walk, walk, if_neg hexclude,
        if_neg hexclude]
      simp only [ih]

/-- What one path adds. It builds a type only when it embeds another schema. -/
theorem pathLayer_cases {field : String} {d : PathDescriptor SchemaLink} {w w' : World P}
    {result : Except BuildError (FieldLayer (DeferredField P) (DeferredMap P))}
    (h : pathLayer request registry nested field d w = (result, w')) :
    (d.otherSchema? request.schema = none ∧ w' = w ∧
        ∀ e, result = .error e → ∃ kind, e = .unknownPrimitiveKind kind) ∨
      ∃ (target : SchemaId) (hself : target ≠ request.schema),
        d.otherSchema? request.schema = some target ∧
          ((∃ e, nested field target hself w = (.error e, w') ∧ result = .error e) ∨
            ∃ type, nested field target hself w = (.ok type, w') ∧
              result = .ok (.field field (.ofType (.listIf d.isArray (.named type))))) := by
  obtain ⟨element, isArray⟩ := d
  cases element with
  | reference typeName =>
    obtain ⟨rfl, rfl⟩ := Prod.mk.inj h
    exact Or.inl ⟨rfl, rfl, fun e he ↦ absurd he (by simp)⟩
  | primitive kind =>
    refine Or.inl ⟨rfl, ?_⟩
    unfold pathLayer PrimitiveKind.scalar at h
    cases hkind : kind.classify with
    | none =>
      simp only [hkind] at h
      obtain ⟨rfl, rfl⟩ := Prod.mk.inj h
      exact ⟨rfl, fun e he ↦ ⟨kind.tag, (Except.error.inj he).symm⟩⟩
    | some scalar =>
      simp only [hkind] at h
      obtain ⟨rfl, rfl⟩ := Prod.mk.inj h
      exact ⟨rfl, fun e he ↦ absurd he (by simp)⟩
  | embedded link =>
    by_cases hself : link.target = request.schema
    · simp only [pathLayer, dif_pos hself, Prod.mk.injEq] at h
      obtain ⟨rfl, rfl⟩ := h
      exact Or.inl ⟨if_pos hself, rfl, fun e he ↦ absurd he (by simp)⟩
    · refine Or.inr ⟨link.target, hself, if_neg hself, ?_⟩
      simp only [pathLayer, dif_neg hself] at h
      split at h
      · next e w₁ hnested =>
        obtain ⟨rfl, rfl⟩ := Prod.mk.inj h
        exact Or.inl ⟨e, hnested, rfl⟩
      · next type w₁ hnested =>
        obtain ⟨rfl, rfl⟩ := Prod.mk.inj h
        exact Or.inr ⟨type, hnested, rfl⟩

/-- A path fails as the build of its nested type does. -/
theorem pathLayer_of_error {field : String} {d : PathDescriptor SchemaLink} {target : SchemaId}
    {w w' : World P} {e : BuildError} (hother : d.otherSchema? request.schema = some target)
    (h : ∀ hself : target ≠ request.schema, nested field target hself w = (.error e, w')) :
    pathLayer request registry nested field d w = (.error e, w') := by
  rcases hlayer : pathLayer request registry nested field d w with ⟨layer, w₁⟩
  rcases pathLayer_cases hlayer with ⟨hnone, -, -⟩ | ⟨target', hself, hsome, hresult⟩
  · exact absurd (hother.symm.trans hnone) (by simp)
  · obtain rfl := Option.some.inj (hother.symm.trans hsome)
    rcases hresult with ⟨e', hrun, rfl⟩ | ⟨type, hrun, -⟩
    · obtain ⟨he, rfl⟩ := Prod.mk.inj ((h hself).symm.trans hrun)
      rw [Except.error.inj he]
    · exact absurd ((h hself).symm.trans hrun) (by simp)

/-- What one path adds depends on the nested build of that path only. -/
theorem pathLayer_congr {field : String} {d : PathDescriptor SchemaLink} {w : World P}
    (h : ∀ target (hself : target ≠ request.schema), d.otherSchema? request.schema = some target →
      nested field target hself w = nested' field target hself w) :
    pathLayer request registry nested field d w = pathLayer request registry nested' field d w := by
  obtain ⟨element, isArray⟩ := d
  cases element with
  | reference typeName => rfl
  | primitive kind => rfl
  | embedded link =>
    by_cases hself : link.target = request.schema
    · simp only [pathLayer, dif_pos hself]
    · simp only [pathLayer, dif_neg hself, h link.target hself (if_neg hself)]

theorem walk_cons_of_mem {field : String} (hexclude : field ∈ request.exclude)
    (d : PathDescriptor SchemaLink) (rest : List (String × PathDescriptor SchemaLink))
    (w : World P) :
    walk request registry nested ((field, d) :: rest) w =
      walk request registry nested rest w := by
  rw [walk, if_pos hexclude]

/-- A walk whose first path adds a layer puts it in front of what the other paths add. -/
theorem walk_cons_of_ok {field : String} (hexclude : field ∉ request.exclude)
    {d : PathDescriptor SchemaLink} {w w₁ : World P}
    {layer : FieldLayer (DeferredField P) (DeferredMap P)}
    (hlayer : pathLayer request registry nested field d w = (.ok layer, w₁))
    (rest : List (String × PathDescriptor SchemaLink)) :
    walk request registry nested ((field, d) :: rest) w =
      match walk request registry nested rest w₁ with
      | (.error e, w') => (.error e, w')
      | (.ok layers, w') => (.ok (layer :: layers), w') := by
  rcases hrest : walk request registry nested rest w₁ with ⟨e | layers, w'⟩
  · simp only [walk, if_neg hexclude, hlayer, hrest]
  · simp only [walk, if_neg hexclude, hlayer, hrest]

theorem walk_cons_of_error {field : String} (hexclude : field ∉ request.exclude)
    {d : PathDescriptor SchemaLink} {w w₁ : World P} {e : BuildError}
    (hlayer : pathLayer request registry nested field d w = (.error e, w₁))
    (rest : List (String × PathDescriptor SchemaLink)) :
    walk request registry nested ((field, d) :: rest) w = (.error e, w₁) := by
  rw [walk, if_neg hexclude, hlayer]

/-- A walk that passes its first path passes the others from there. -/
theorem walk_cons_eq_ok {field : String} (hexclude : field ∉ request.exclude)
    {d : PathDescriptor SchemaLink} {rest : List (String × PathDescriptor SchemaLink)}
    {w w' : World P} {layers : FieldThunk (DeferredField P) (DeferredMap P)}
    (h : walk request registry nested ((field, d) :: rest) w = (.ok layers, w')) :
    ∃ layer w₁ more, pathLayer request registry nested field d w = (.ok layer, w₁) ∧
      walk request registry nested rest w₁ = (.ok more, w') ∧ layers = layer :: more := by
  rcases hlayer : pathLayer request registry nested field d w with ⟨e | layer, w₁⟩
  · rw [walk_cons_of_error hexclude hlayer] at h
    exact absurd h (by simp)
  · rw [walk_cons_of_ok hexclude hlayer] at h
    rcases hmore : walk request registry nested rest w₁ with ⟨e | more, w₂⟩
    · rw [hmore] at h
      exact absurd h (by simp)
    · rw [hmore] at h
      obtain ⟨hlayers, rfl⟩ := Prod.mk.inj h
      exact ⟨layer, w₁, more, rfl, hmore, (Except.ok.inj hlayers).symm⟩

/-- A walk over more paths goes on where it stood, unless it has failed. -/
theorem walk_append (before after : List (String × PathDescriptor SchemaLink)) (w : World P) :
    walk request registry nested (before ++ after) w =
      match walk request registry nested before w with
      | (.error e, w₁) => (.error e, w₁)
      | (.ok layers, w₁) =>
        match walk request registry nested after w₁ with
        | (.error e, w') => (.error e, w')
        | (.ok more, w') => (.ok (layers ++ more), w') := by
  induction before generalizing w with
  | nil =>
    rw [List.nil_append, walk]
    dsimp only
    rcases walk request registry nested after w with ⟨e | more, w'⟩ <;> rfl
  | cons path rest ih =>
    obtain ⟨field, d⟩ := path
    by_cases hexclude : field ∈ request.exclude
    · rw [List.cons_append, walk_cons_of_mem hexclude, walk_cons_of_mem hexclude, ih]
    · rcases hlayer : pathLayer request registry nested field d w with ⟨e | layer, w₁⟩
      · rw [List.cons_append, walk_cons_of_error hexclude hlayer,
          walk_cons_of_error hexclude hlayer]
      · rw [List.cons_append, walk_cons_of_ok hexclude hlayer, walk_cons_of_ok hexclude hlayer, ih]
        rcases walk request registry nested rest w₁ with ⟨e | layers, w₂⟩
        · rfl
        · dsimp only
          rcases walk request registry nested after w₂ with ⟨e | more, w'⟩ <;> rfl

theorem walk_append_of_ok {before : List (String × PathDescriptor SchemaLink)} {w w₁ : World P}
    {layers : FieldThunk (DeferredField P) (DeferredMap P)}
    (h : walk request registry nested before w = (.ok layers, w₁))
    (after : List (String × PathDescriptor SchemaLink)) :
    walk request registry nested (before ++ after) w =
      match walk request registry nested after w₁ with
      | (.error e, w') => (.error e, w')
      | (.ok more, w') => (.ok (layers ++ more), w') := by
  rw [walk_append, h]

/-- A walk that reaches a failing path without a change fails without a change. -/
theorem walk_of_unchanged {before : List (String × PathDescriptor SchemaLink)} {field : String}
    {d : PathDescriptor SchemaLink} {w : World P} {e : BuildError}
    (hbefore : (walk request registry nested before w).2 = w) (hfield : field ∉ request.exclude)
    (hlayer : pathLayer request registry nested field d w = (.error e, w))
    (after : List (String × PathDescriptor SchemaLink)) :
    ∃ e', walk request registry nested (before ++ (field, d) :: after) w = (.error e', w) := by
  rw [walk_append]
  rcases hrun : walk request registry nested before w with ⟨e' | layers, w₁⟩
  · obtain rfl : w₁ = w := by rwa [hrun] at hbefore
    exact ⟨e', rfl⟩
  · obtain rfl : w₁ = w := by rwa [hrun] at hbefore
    refine ⟨e, ?_⟩
    dsimp only
    rw [walk_cons_of_error hfield hlayer]

/-- A walk that fails passed the paths before the one that failed. -/
theorem walk_eq_error {paths : List (String × PathDescriptor SchemaLink)} {w w' : World P}
    {e : BuildError} (h : walk request registry nested paths w = (.error e, w')) :
    ∃ before field d after layers w₁, paths = before ++ (field, d) :: after ∧
      walk request registry nested before w = (.ok layers, w₁) ∧
      pathLayer request registry nested field d w₁ = (.error e, w') := by
  induction paths generalizing w with
  | nil => exact absurd h (by simp [walk])
  | cons path rest ih =>
    obtain ⟨field, d⟩ := path
    by_cases hexclude : field ∈ request.exclude
    · rw [walk_cons_of_mem hexclude] at h
      obtain ⟨before, field', d', after, layers, w₁, rfl, hbefore, hfail⟩ := ih h
      exact ⟨(field, d) :: before, field', d', after, layers, w₁, rfl,
        (walk_cons_of_mem hexclude ..).trans hbefore, hfail⟩
    · rcases hlayer : pathLayer request registry nested field d w with ⟨e' | layer, w₁⟩
      · rw [walk_cons_of_error hexclude hlayer] at h
        obtain ⟨he, rfl⟩ := Prod.mk.inj h
        obtain rfl := Except.error.inj he
        exact ⟨[], field, d, rest, [], w, rfl, rfl, hlayer⟩
      · rw [walk_cons_of_ok hexclude hlayer] at h
        split at h
        · next e' w₂ hrest =>
          obtain ⟨before, field', d', after, layers, w₃, rfl, hbefore, hfail⟩ := ih (hrest.trans h)
          refine ⟨(field, d) :: before, field', d', after, layer :: layers, w₃, rfl, ?_, hfail⟩
          rw [walk_cons_of_ok hexclude hlayer, hbefore]
        · exact absurd h (by simp)

/-- Two walks agree when they agree on each path, in the world that the paths before it leave. -/
theorem walk_congr {paths : List (String × PathDescriptor SchemaLink)} {w : World P}
    (h : ∀ before field d after layers w₁, paths = before ++ (field, d) :: after →
      walk request registry nested before w = (.ok layers, w₁) →
      pathLayer request registry nested field d w₁ =
        pathLayer request registry nested' field d w₁) :
    walk request registry nested paths w = walk request registry nested' paths w := by
  induction paths generalizing w with
  | nil => rfl
  | cons path rest ih =>
    obtain ⟨field, d⟩ := path
    by_cases hexclude : field ∈ request.exclude
    · rw [walk_cons_of_mem hexclude, walk_cons_of_mem hexclude]
      refine ih fun before field' d' after layers w₁ hrest hbefore ↦ ?_
      exact h ((field, d) :: before) field' d' after layers w₁ (by rw [hrest]; rfl)
        ((walk_cons_of_mem hexclude ..).trans hbefore)
    · have hfirst := h [] field d rest [] w rfl rfl
      rcases hlayer : pathLayer request registry nested field d w with ⟨e | layer, w₁⟩
      · rw [walk_cons_of_error hexclude hlayer,
          walk_cons_of_error hexclude (hfirst.symm.trans hlayer)]
      · rw [walk_cons_of_ok hexclude hlayer,
          walk_cons_of_ok hexclude (hfirst.symm.trans hlayer), ih]
        intro before field' d' after layers w₂ hrest hbefore
        refine h ((field, d) :: before) field' d' after (layer :: layers) w₂ (by rw [hrest]; rfl) ?_
        rw [walk_cons_of_ok hexclude hlayer, hbefore]

end Walk

/-- Building is one level of building on top of itself. -/
theorem buildWithin_eq_buildStep (heap : SchemaHeap) (registry : RegistryId) :
    (buildWithin heap registry : Builder P) =
      buildStep heap registry (buildWithin heap registry) := by
  funext ancestors request w
  rw [buildWithin, buildStep, SchemaHeap.kept]
  simp only [walk_kept]
  rfl

section Build

variable {heap : SchemaHeap} {registry : RegistryId} {ancestors : Lineage}
  {request : BuildRequest P} {w w' : World P}

/-- What the build of a nested type can do: refuse a cycle or a dead link, or build a request. -/
theorem nestedBuild_cases {field : String} {target : SchemaId} {hself : target ≠ request.schema}
    {result : Except BuildError TypeId}
    (h : nestedBuild heap registry ancestors request field target hself w = (result, w')) :
    (target ∈ ancestors.schemas ∧ w' = w ∧ result =
        .error (.embeddingCycle (embeddingCycle ancestors request.name field target))) ∨
      (heap.isAlive target = false ∧ w' = w ∧ result = .error (.missingOption .schema)) ∨
      (target ∉ ancestors.schemas ∧ heap.isAlive target = true ∧
        buildWithin heap registry (ancestors ++ [(request.name, request.schema)])
          (request.nested field target) w = (result, w')) := by
  unfold nestedBuild nestedStep at h
  split at h
  · next hcycle =>
    obtain ⟨rfl, rfl⟩ := Prod.mk.inj h
    exact Or.inl ⟨hcycle, rfl, rfl⟩
  · next hcycle =>
    split at h
    · next halive => exact Or.inr (Or.inr ⟨hcycle, halive, h⟩)
    · next hdead =>
      obtain ⟨rfl, rfl⟩ := Prod.mk.inj h
      exact Or.inr (Or.inl ⟨by simpa using hdead, rfl, rfl⟩)

/-- A path that is passed embeds no other schema, or its nested type is built. -/
theorem pathLayer_eq_ok {field : String} {d : PathDescriptor SchemaLink}
    {layer : FieldLayer (DeferredField P) (DeferredMap P)}
    (h : pathLayer request registry (nestedBuild heap registry ancestors request) field d w =
      (.ok layer, w')) :
    (d.otherSchema? request.schema = none ∧ w' = w) ∨
      ∃ target t, target ≠ request.schema ∧ d.otherSchema? request.schema = some target ∧
        target ∉ ancestors.schemas ∧ heap.isAlive target = true ∧
        buildWithin heap registry (ancestors ++ [(request.name, request.schema)])
          (request.nested field target) w = (.ok t, w') := by
  rcases pathLayer_cases h with ⟨hnone, hsame, -⟩ | ⟨target, hself, hother, hresult⟩
  · exact Or.inl ⟨hnone, hsame⟩
  rcases hresult with ⟨e, -, herror⟩ | ⟨t, hnested, -⟩
  · exact absurd herror (by simp)
  rcases nestedBuild_cases hnested with ⟨-, -, hcycle⟩ | ⟨-, -, hdead⟩ | ⟨hcycle, halive, hbuild⟩
  · exact absurd hcycle (by simp)
  · exact absurd hdead (by simp)
  · exact Or.inr ⟨target, t, hself, hother, hcycle, halive, hbuild⟩

/-- What looking at a path does to the world: nothing, or what the build of a nested request
does. -/
theorem pathLayer_world_cases {field : String} {d : PathDescriptor SchemaLink}
    {layer : Except BuildError (FieldLayer (DeferredField P) (DeferredMap P))}
    (h : pathLayer request registry (nestedBuild heap registry ancestors request) field d w =
      (layer, w')) :
    w' = w ∨ ∃ target result, d.otherSchema? request.schema = some target ∧
      target ∉ ancestors.schemas ∧ heap.isAlive target = true ∧
      buildWithin heap registry (ancestors ++ [(request.name, request.schema)])
        (request.nested field target) w = (result, w') := by
  have hbuild : ∀ target (hself : target ≠ request.schema) (result : Except BuildError TypeId),
      d.otherSchema? request.schema = some target →
      nestedBuild heap registry ancestors request field target hself w = (result, w') →
      w' = w ∨ ∃ target result, d.otherSchema? request.schema = some target ∧
        target ∉ ancestors.schemas ∧ heap.isAlive target = true ∧
        buildWithin heap registry (ancestors ++ [(request.name, request.schema)])
          (request.nested field target) w = (result, w') := by
    intro target hself result hother hnested
    rcases nestedBuild_cases hnested with ⟨-, hsame, -⟩ | ⟨-, hsame, -⟩ | ⟨hcycle, halive, hrun⟩
    · exact Or.inl hsame
    · exact Or.inl hsame
    · exact Or.inr ⟨target, result, hother, hcycle, halive, hrun⟩
  rcases pathLayer_cases h with ⟨-, hsame, -⟩ | ⟨target, hself, hother, hresult⟩
  · exact Or.inl hsame
  · rcases hresult with ⟨e, hnested, -⟩ | ⟨type, hnested, -⟩
    · exact hbuild target hself _ hother hnested
    · exact hbuild target hself _ hother hnested

/-- What a build can do: refuse the request, find its name registered, or walk the kept paths and
construct the type. -/
theorem buildWithin_cases {result : Except BuildError TypeId}
    (h : buildWithin heap registry ancestors request w = (result, w')) :
    ((heap.paths request.schema = [] ∨ request.name = "") ∧ w' = w ∧
        ∃ option, result = .error (.missingOption option)) ∨
      (∃ t, w.lookup registry request.name = some t ∧ w' = w ∧ result = .ok t) ∨
      (request.name ≠ "" ∧ w.lookup registry request.name = none ∧
        ((∃ e, walk request registry (nestedBuild heap registry ancestors request)
            (heap.kept request.exclude request.schema) w = (.error e, w') ∧ result = .error e) ∨
          ∃ layers w₁, walk request registry (nestedBuild heap registry ancestors request)
            (heap.kept request.exclude request.schema) w = (.ok layers, w₁) ∧
              w₁.construct registry (request.type layers) = (result, w'))) := by
  rw [buildWithin_eq_buildStep, buildStep] at h
  split at h
  · next hempty =>
    obtain ⟨rfl, rfl⟩ := Prod.mk.inj h
    exact Or.inl ⟨Or.inl (List.isEmpty_iff.mp hempty), rfl, .schema, rfl⟩
  · split at h
    · next hname =>
      obtain ⟨rfl, rfl⟩ := Prod.mk.inj h
      exact Or.inl ⟨Or.inr (String.isEmpty_iff.mp hname), rfl, .name, rfl⟩
    · next hname =>
      split at h
      · next t hlookup =>
        obtain ⟨rfl, rfl⟩ := Prod.mk.inj h
        exact Or.inr (Or.inl ⟨t, hlookup, rfl, rfl⟩)
      · next hlookup =>
        refine Or.inr (Or.inr ⟨fun h ↦ hname (String.isEmpty_iff.mpr h), hlookup, ?_⟩)
        split at h
        · next e w₁ hwalk =>
          obtain ⟨rfl, rfl⟩ := Prod.mk.inj h
          exact Or.inl ⟨e, hwalk, rfl⟩
        · next layers w₁ hwalk => exact Or.inr ⟨layers, w₁, hwalk, h⟩

/-- A build that succeeds is asked for a schema with paths under a name, and finds the name
registered or constructs the type. -/
theorem buildWithin_eq_ok {t : TypeId}
    (h : buildWithin heap registry ancestors request w = (.ok t, w')) :
    heap.paths request.schema ≠ [] ∧ request.name ≠ "" ∧
      ((w.lookup registry request.name = some t ∧ w' = w) ∨
        (w.lookup registry request.name = none ∧
          ∃ layers w₁, walk request registry (nestedBuild heap registry ancestors request)
            (heap.kept request.exclude request.schema) w = (.ok layers, w₁) ∧
              w₁.construct registry (request.type layers) = (.ok t, w'))) := by
  rw [buildWithin_eq_buildStep, buildStep] at h
  split at h
  · exact absurd h (by simp)
  · next hpaths =>
    split at h
    · exact absurd h (by simp)
    · next hname =>
      refine ⟨fun hempty ↦ hpaths (List.isEmpty_iff.mpr hempty),
        fun hempty ↦ hname (String.isEmpty_iff.mpr hempty), ?_⟩
      split at h
      · next found hlookup =>
        obtain ⟨hfound, hsame⟩ := Prod.mk.inj h
        exact Or.inl ⟨Except.ok.inj hfound ▸ hlookup, hsame.symm⟩
      · next hlookup =>
        split at h
        · exact absurd h (by simp)
        · next layers w₁ hwalk => exact Or.inr ⟨hlookup, layers, w₁, hwalk, h⟩

end Build

/-- What holds of a request whenever it holds of the requests nested in it holds of every request:
a nested request leaves one schema less that can enclose others. -/
theorem nested_induction (heap : SchemaHeap)
    {motive : Lineage → BuildRequest P → World P → Prop}
    (step : ∀ ancestors request w,
      (∀ field target w, target ≠ request.schema → target ∉ ancestors.schemas →
        heap.isAlive target = true →
        motive (ancestors ++ [(request.name, request.schema)]) (request.nested field target) w) →
      motive ancestors request w)
    (ancestors : Lineage) (request : BuildRequest P) (w : World P) : motive ancestors request w :=
  step ancestors request w fun field target w _hself _hcycle _halive ↦
    nested_induction heap step (ancestors ++ [(request.name, request.schema)])
      (request.nested field target) w
termination_by (unvisited heap.living (request.schema :: ancestors.schemas)).length
decreasing_by
  apply length_unvisited_lt (SchemaHeap.mem_living.mpr _halive)
  · simp [_hself, _hcycle]
  · simp [BuildRequest.nested]
  · intro i hi
    simp only [Lineage.schemas, List.map_append, List.map_cons, List.map_nil, List.mem_cons,
      List.mem_append, List.not_mem_nil, or_false] at hi ⊢
    exact Or.inr hi.symm

/-- Animals, with the place where they live, their young, and their owners; and places. -/
def animalHeap : SchemaHeap :=
  ⟨#[some (.ofList
      [("name", ⟨.primitive .string, false⟩), ("home", ⟨.embedded (.shared 1), false⟩),
        ("young", ⟨.embedded (.cyclic 0), true⟩), ("owner", ⟨.reference "Person", false⟩)]),
    some (.ofList [("city", ⟨.primitive .string, false⟩)])]⟩

/-- The animals, with identifiers for names. -/
def animalRequest : BuildRequest .none where
  name := "Animal"
  description := none
  classKind := .object
  schema := 0
  exclude := []
  extend := .ready (.ofList [("name", .ofType (.scalar .id))])
  props := .ready ∅

/-- A world with nothing but an empty registry. -/
def newWorld : World .none :=
  World.empty.addRegistry

/-- The animals are built, as the type after their homes. -/
theorem build_animal : newWorld.build animalHeap 0 animalRequest =
    (.ok 1, (newWorld.build animalHeap 0 animalRequest).2) := by
  have hresult : (newWorld.build animalHeap 0 animalRequest).1 = .ok 1 := by
    with_unfolding_all rfl
  exact Prod.ext hresult rfl

end DocumentTypes

import DocumentTypes.Proofs.Build.Recorded

/-!
What a build that misses an option leaves behind. A request is checked before anything is
registered, but so is each nested request only when its turn comes: the types of the paths before it
are registered by then. A build that fails for a missing option leaves the registry as it was
exactly when, on the way down to the request that misses it, all the paths that embed another schema
and are looked at before are registered already (`MissesFirst`).
-/

set_option autoImplicit false

namespace DocumentTypes

open World

/-- Down from the type `name` of a schema, the first request for a type that is not registered
misses an option. -/
inductive MissesFirst (heap : SchemaHeap) (registered exclude : List String) :
    String → SchemaId → Prop
  | schema {name : String} {schema : SchemaId} (hempty : heap.paths schema = []) :
      MissesFirst heap registered exclude name schema
  | name (schema : SchemaId) : MissesFirst heap registered exclude "" schema
  | nested {name field : String} {schema target : SchemaId} {d : PathDescriptor SchemaLink}
      {before after : List (String × PathDescriptor SchemaLink)} (hnew : name ∉ registered)
      (hkept : heap.kept exclude schema = before ++ (field, d) :: after)
      (hbefore : ∀ other d' target', (other, d') ∈ before → d'.otherSchema? schema = some target' →
        subFieldName name other ∈ registered)
      (hother : d.otherSchema? schema = some target)
      (h : MissesFirst heap registered exclude (subFieldName name field) target) :
      MissesFirst heap registered exclude name schema

variable {P : Producers} {heap : SchemaHeap} {registry : RegistryId} {ancestors : Lineage}
  {request : BuildRequest P} {w w' : World P}

theorem SchemaHeap.paths_of_not_isAlive {schema : SchemaId} (h : heap.isAlive schema = false) :
    heap.paths schema = [] := by
  unfold paths
  rw [isAlive, Option.isSome_eq_false_iff, Option.isNone_iff_eq_none] at h
  rw [h]

/-- A build whose name is registered changes nothing. -/
theorem buildWithin_of_mem_keys {result : Except BuildError TypeId}
    (hregistered : request.name ∈ (w.registryAt registry).keys)
    (h : buildWithin heap registry ancestors request w = (result, w')) : w' = w := by
  rcases buildWithin_cases h with ⟨-, rfl, -⟩ | ⟨t, -, rfl, -⟩ | ⟨-, hnew, -⟩
  · rfl
  · rfl
  · exact absurd hregistered (lookup_eq_none_iff.mp hnew)

/-- A path whose type is registered changes nothing. -/
theorem pathLayer_of_mem_keys {field : String} {d : PathDescriptor SchemaLink}
    {layer : Except BuildError (FieldLayer (DeferredField P) (DeferredMap P))}
    (hregistered : ∀ target, d.otherSchema? request.schema = some target →
      subFieldName request.name field ∈ (w.registryAt registry).keys)
    (h : pathLayer request registry (nestedBuild heap registry ancestors request) field d w =
      (layer, w')) : w' = w := by
  rcases pathLayer_world_cases h with hsame | ⟨target, result, hother, -, -, hrun⟩
  · exact hsame
  · exact buildWithin_of_mem_keys (hregistered target hother) hrun

/-- Paths whose types are registered are walked without a change. -/
theorem walk_of_mem_keys (paths : List (String × PathDescriptor SchemaLink)) (w : World P)
    (hregistered : ∀ other d target, (other, d) ∈ paths →
      d.otherSchema? request.schema = some target →
      subFieldName request.name other ∈ (w.registryAt registry).keys) :
    (walk request registry (nestedBuild heap registry ancestors request) paths w).2 = w := by
  induction paths with
  | nil => rfl
  | cons path rest ih =>
    obtain ⟨field, d⟩ := path
    have hrest := ih fun other d target hmem ↦
      hregistered other d target (List.mem_cons_of_mem _ hmem)
    by_cases hexclude : field ∈ request.exclude
    · rw [walk_cons_of_mem hexclude]
      exact hrest
    rcases hlayer : pathLayer request registry (nestedBuild heap registry ancestors request) field d
      w with ⟨e | layer, w₁⟩
    · rw [walk_cons_of_error hexclude hlayer]
      exact pathLayer_of_mem_keys
        (fun target ↦ hregistered field d target List.mem_cons_self) hlayer
    · obtain rfl := pathLayer_of_mem_keys
        (fun target ↦ hregistered field d target List.mem_cons_self) hlayer
      rw [walk_cons_of_ok hexclude hlayer]
      rcases hmore : walk request registry (nestedBuild heap registry ancestors request) rest
        w₁ with ⟨e | more, w₂⟩
      · rwa [hmore] at hrest
      · rwa [hmore] at hrest

/-- When paths have been passed, their types are registered. -/
theorem mem_keys_of_walk {before rest : List (String × PathDescriptor SchemaLink)}
    {layers : FieldThunk (DeferredField P) (DeferredMap P)} {field : String}
    {d : PathDescriptor SchemaLink} {target : SchemaId}
    (hkept : heap.kept request.exclude request.schema = before ++ rest)
    (hheld : w.HasRegistry registry)
    (hwalk : walk request registry (nestedBuild heap registry ancestors request) before w =
      (.ok layers, w')) (hmem : (field, d) ∈ before)
    (hother : d.otherSchema? request.schema = some target) :
    subFieldName request.name field ∈ (w'.registryAt registry).keys := by
  have hpaths : ∀ path ∈ before, path.1 ∉ request.exclude := by
    intro path hpath
    have hmem : path ∈ heap.kept request.exclude request.schema := by
      rw [hkept]
      exact List.mem_append_left rest hpath
    exact (SchemaHeap.mem_kept.mp hmem).2
  obtain ⟨layer, -, hrecords⟩ := exists_partner_of_mem (records_walk hpaths hheld hwalk) hmem
  obtain ⟨u, hlookup, -⟩ := hrecords.of_otherSchema hother
  by_contra hmissing
  exact absurd ((lookup_eq_none_iff.mpr hmissing).symm.trans hlookup) (by simp)

/-- When the first request that is not registered misses an option, building fails and changes
nothing. The induction is on the way down to that request. -/
theorem MissesFirst.buildWithin_eq {registered exclude : List String} {name : String}
    {schema : SchemaId} (h : MissesFirst heap registered exclude name schema)
    (ancestors : Lineage) (request : BuildRequest P) (hname : request.name = name)
    (hschema : request.schema = schema) (hexclude : request.exclude = exclude) {w : World P}
    (hregistered : (w.registryAt registry).keys = registered) :
    ∃ e, buildWithin heap registry ancestors request w = (.error e, w) := by
  induction h generalizing ancestors request with
  | schema hempty =>
    refine ⟨.missingOption .schema, ?_⟩
    rw [buildWithin_eq_buildStep, buildStep, hschema, hempty]
    rfl
  | name schema =>
    rw [buildWithin_eq_buildStep, buildStep, hname]
    by_cases hempty : (heap.paths request.schema).isEmpty = true
    · exact ⟨.missingOption .schema, if_pos hempty⟩
    · exact ⟨.missingOption .name, if_neg hempty⟩
  | @nested name field schema target d before after hnew hkept hbefore hother _ ih =>
    subst hname hschema hexclude hregistered
    have hlayer : ∃ e, pathLayer request registry (nestedBuild heap registry ancestors request)
        field d w = (.error e, w) := by
      by_cases hcycle : target ∈ ancestors.schemas
      · refine ⟨.embeddingCycle (embeddingCycle ancestors request.name field target),
          pathLayer_of_error hother fun hself ↦ ?_⟩
        exact if_pos hcycle
      · cases halive : heap.isAlive target with
        | false =>
          refine ⟨.missingOption .schema, pathLayer_of_error hother fun hself ↦ ?_⟩
          rw [nestedBuild, nestedStep, if_neg hcycle, halive]
          exact if_neg Bool.false_ne_true
        | true =>
          obtain ⟨e, hnested⟩ := ih (ancestors ++ [(request.name, request.schema)])
            (request.nested field target) rfl rfl rfl
          refine ⟨e, pathLayer_of_error hother fun hself ↦ ?_⟩
          rw [nestedBuild, nestedStep, if_neg hcycle, if_pos halive, hnested]
    obtain ⟨e, hlayer⟩ := hlayer
    obtain ⟨e, hwalk⟩ := walk_of_unchanged (walk_of_mem_keys before w hbefore)
      (SchemaHeap.of_kept_eq_append hkept).2 hlayer after
    rw [← hkept] at hwalk
    rcases hrun : buildWithin heap registry ancestors request w with ⟨result, w'⟩
    rcases buildWithin_cases hrun with ⟨-, rfl, option, rfl⟩ | ⟨t, hlookup, -⟩ |
      ⟨-, -, ⟨e', herror, rfl⟩ | ⟨layers, w₁, hok, -⟩⟩
    · exact ⟨_, rfl⟩
    · exact absurd ((lookup_eq_none_iff.mpr hnew).symm.trans hlookup) (by simp)
    · obtain ⟨-, rfl⟩ := Prod.mk.inj (hwalk.symm.trans herror)
      exact ⟨_, rfl⟩
    · exact absurd (hwalk.symm.trans hok) (by simp)

/-- A path that fails for a missing option embeds another schema, which has no paths, or whose
request misses the option. -/
theorem pathLayer_missing_option {field : String} {d : PathDescriptor SchemaLink}
    {option : RequiredOption}
    (h : pathLayer request registry (nestedBuild heap registry ancestors request) field d w =
      (.error (.missingOption option), w')) :
    ∃ target, d.otherSchema? request.schema = some target ∧ target ≠ request.schema ∧
      (heap.paths target = [] ∨ target ∉ ancestors.schemas ∧ heap.isAlive target = true ∧
        buildWithin heap registry (ancestors ++ [(request.name, request.schema)])
          (request.nested field target) w = (.error (.missingOption option), w')) := by
  rcases pathLayer_cases h with ⟨-, -, hunknown⟩ | ⟨target, hself, hother, hnested⟩
  · obtain ⟨kind, hkind⟩ := hunknown _ rfl
    exact absurd hkind (by simp)
  refine ⟨target, hother, hself, ?_⟩
  rcases hnested with ⟨e, hrun, hresult⟩ | ⟨t, -, hresult⟩
  · obtain rfl := Except.error.inj hresult
    rcases nestedBuild_cases hrun with ⟨-, -, hcycle⟩ | ⟨hdead, -, -⟩ | ⟨hcycle, halive, hbuild⟩
    · exact absurd hcycle (by simp)
    · exact Or.inl (SchemaHeap.paths_of_not_isAlive hdead)
    · exact Or.inr ⟨hcycle, halive, hbuild⟩
  · exact absurd hresult (by simp)

/-- When building fails for a missing option and registers nothing, the first request that is not
registered misses an option. The induction is on the nested requests: the one whose turn it is when
the walk fails is built in a registry that is still the same. -/
theorem missesFirst_of_entries_eq (hheld : w.HasRegistry registry) {option : RequiredOption}
    (h : buildWithin heap registry ancestors request w = (.error (.missingOption option), w'))
    (hsame : (w'.registryAt registry).entries = (w.registryAt registry).entries) :
    MissesFirst heap (w.registryAt registry).keys request.exclude request.name request.schema := by
  induction ancestors, request, w using nested_induction heap with
  | step ancestors request w ih =>
    rcases buildWithin_cases h with ⟨hempty | hname, -, -⟩ | ⟨t, -, -, hresult⟩ |
      ⟨-, hnew, ⟨e, herror, hresult⟩ | ⟨layers, w₁, -, hconstruct⟩⟩
    · exact .schema hempty
    · rw [hname]
      exact .name request.schema
    · exact absurd hresult (by simp)
    · obtain rfl := Except.error.inj hresult
      obtain ⟨before, field, d, after, layers, w₁, hkept, hwalk, hlayer⟩ := walk_eq_error herror
      have hheld₁ := (walk_grows_nested hwalk).hasRegistry hheld
      have hfirst := (walk_grows_nested hwalk).prefix_entries hheld
      have hrest := (pathLayer_grows_nested hlayer).prefix_entries hheld₁
      have hsame₁ : (w₁.registryAt registry).entries = (w.registryAt registry).entries := by
        rw [hsame] at hrest
        exact hrest.eq_of_length (hrest.length_le.antisymm hfirst.length_le)
      have hkeys₁ : (w₁.registryAt registry).keys = (w.registryAt registry).keys :=
        congrArg (List.map Prod.fst) hsame₁
      have hbefore : ∀ other d' target', (other, d') ∈ before →
          d'.otherSchema? request.schema = some target' →
          subFieldName request.name other ∈ (w.registryAt registry).keys := by
        intro other d' target' hmem hother'
        rw [← hkeys₁]
        exact mem_keys_of_walk hkept hheld hwalk hmem hother'
      obtain ⟨target, hother, hself, hmisses⟩ := pathLayer_missing_option hlayer
      refine .nested (lookup_eq_none_iff.mp hnew) hkept hbefore hother ?_
      rcases hmisses with hempty | ⟨hcycle, halive, hbuild⟩
      · exact .schema hempty
      · rw [← hkeys₁]
        exact ih field target w₁ hself hcycle halive hheld₁ hbuild (hsame.trans hsame₁.symm)
    · exact absurd (construct_eq_error hconstruct).2 (by simp)

/-- A build that fails for a missing option has registered nothing exactly when the first request
that is not registered misses it. -/
theorem missing_option_leaves_no_trace_iff (hheld : w.HasRegistry registry)
    {option : RequiredOption}
    (h : w.build heap registry request = (.error (.missingOption option), w')) :
    (w'.registryAt registry).entries = (w.registryAt registry).entries ↔
      MissesFirst heap (w.registryAt registry).keys request.exclude request.name
        request.schema := by
  constructor
  · intro hsame
    exact missesFirst_of_entries_eq hheld h hsame
  · intro hmisses
    obtain ⟨e, hrun⟩ := hmisses.buildWithin_eq [] request rfl rfl rfl rfl
    obtain ⟨-, rfl⟩ := Prod.mk.inj (h.symm.trans hrun)
    rfl

/-- A schema that embeds one with a path and then one with none. -/
def hollowHeap : SchemaHeap :=
  ⟨#[some (.ofList [("a", ⟨.embedded (.shared 1), false⟩), ("b", ⟨.embedded (.shared 2), false⟩)]),
    some (.ofList [("x", ⟨.primitive .string, false⟩)]), some ∅]⟩

def hollowRequest (exclude : List String) : BuildRequest .none where
  name := "R"
  description := none
  classKind := .object
  schema := 0
  exclude := exclude
  extend := .ready ∅
  props := .ready ∅

/-- Without the first path, the one whose schema has no paths comes first. -/
theorem missing_option_leaves_no_trace_hollow :
    newWorld.HasRegistry 0 ∧
      (newWorld.build hollowHeap 0 (hollowRequest ["a"])).1 = .error (.missingOption .schema) ∧
      ((newWorld.build hollowHeap 0 (hollowRequest ["a"])).2.registryAt 0).entries = [] := by
  have hheld : newWorld.HasRegistry 0 := by decide
  have hresult : (newWorld.build hollowHeap 0 (hollowRequest ["a"])).1 =
      .error (.missingOption .schema) := by decide +kernel
  have hbuild : newWorld.build hollowHeap 0 (hollowRequest ["a"]) =
      (.error (.missingOption .schema), (newWorld.build hollowHeap 0 (hollowRequest ["a"])).2) :=
    Prod.ext hresult rfl
  have hkept : hollowHeap.kept ["a"] 0 = [] ++ ("b", ⟨.embedded (.shared 2), false⟩) :: [] := by
    decide
  have hempty : hollowHeap.paths 2 = [] := by decide
  have hmisses : MissesFirst hollowHeap (newWorld.registryAt 0).keys ["a"] "R" 0 :=
    .nested (by decide) hkept (by simp) rfl (.schema hempty)
  exact ⟨hheld, hresult, (missing_option_leaves_no_trace_iff hheld hbuild).mpr hmisses⟩

/-- With the first path, its type is registered before the second path is found to have none. -/
theorem missing_option_leaves_nested_type :
    ¬ ∀ (heap : SchemaHeap) (request : BuildRequest .none) (w w' : World .none)
      (option : RequiredOption), w.HasRegistry 0 →
      w.build heap 0 request = (.error (.missingOption option), w') →
      (w'.registryAt 0).entries = (w.registryAt 0).entries := by
  intro hall
  have hresult : (newWorld.build hollowHeap 0 (hollowRequest [])).1 =
      .error (.missingOption .schema) := by decide +kernel
  have hsame := hall hollowHeap (hollowRequest []) newWorld _ .schema (by decide)
    (Prod.ext hresult rfl)
  have hleft : ((newWorld.build hollowHeap 0 (hollowRequest [])).2.registryAt 0).entries =
      [("R_a", 0)] := by decide +kernel
  exact absurd (hleft.symm.trans hsame) (by decide)

end DocumentTypes

import DocumentTypes.Proofs.Build.Growth

/-!
What a build adds to its registry, and in which order. The types that a build nests in each other
form a forest, and `SchemaHeap.Listing` goes through it in post-order: each name comes after the
names nested in it, and a name that is registered when its turn comes is passed over with all that
is nested in it. A build that succeeds appends the listing of the requested name
(`buildWithin_lists`, by `walk_lists`); one that fails appends nested names
(`World.Grows.exists_added`).
-/

set_option autoImplicit false

namespace DocumentTypes

/-- The names of the types nested in the type `name` of a schema, with their schemas: one for each
path that embeds another schema. -/
def nestedTypes (name : String) (schema : SchemaId)
    (paths : List (String × PathDescriptor SchemaLink)) : List (String × SchemaId) :=
  paths.filterMap fun path ↦
    (path.2.otherSchema? schema).map (subFieldName name path.1, ·)

/-- The names that come up in post-order when types are built from schemas under given names, while
`registered` are registered and each name is registered when it comes up. -/
inductive SchemaHeap.Listing (heap : SchemaHeap) (exclude : List String) :
    (registered : List String) → List (String × SchemaId) → List String → Prop
  | nil {registered : List String} : Listing heap exclude registered [] []
  | registered {registered : List String} {name : String} {schema : SchemaId}
      {others : List (String × SchemaId)} {after : List String} (hold : name ∈ registered)
      (hafter : Listing heap exclude registered others after) :
      Listing heap exclude registered ((name, schema) :: others) after
  | new {registered : List String} {name : String} {schema : SchemaId}
      {others : List (String × SchemaId)} {below after : List String} (hnew : name ∉ registered)
      (hbelow : Listing heap exclude registered
        (nestedTypes name schema (heap.kept exclude schema)) below)
      (hafter : Listing heap exclude (registered ++ (below ++ [name])) others after) :
      Listing heap exclude registered ((name, schema) :: others) (below ++ [name] ++ after)

namespace SchemaHeap.Listing

variable {heap : SchemaHeap} {exclude registered : List String}
  {forest others : List (String × SchemaId)} {listed after : List String}

/-- There is one listing of a forest. -/
theorem unique {listed' : List String} (h : heap.Listing exclude registered forest listed)
    (h' : heap.Listing exclude registered forest listed') : listed = listed' := by
  induction h generalizing listed' with
  | nil =>
    cases h'
    rfl
  | registered hold _ ih =>
    cases h' with
    | registered _ hafter' => exact ih hafter'
    | new hnew _ _ => exact absurd hold hnew
  | new hnew _ _ ihbelow ihafter =>
    cases h' with
    | registered hold _ => exact absurd hold hnew
    | new _ hbelow' hafter' =>
      obtain rfl := ihbelow hbelow'
      rw [ihafter hafter']

theorem append (h : heap.Listing exclude registered forest listed)
    (hafter : heap.Listing exclude (registered ++ listed) others after) :
    heap.Listing exclude registered (forest ++ others) (listed ++ after) := by
  induction h with
  | nil => simpa using hafter
  | registered hold _ ih => exact .registered hold (ih hafter)
  | @new registered name schema rest below listed hnew hbelow _ _ ih =>
    rw [List.append_assoc (below ++ [name]), List.cons_append]
    exact .new hnew hbelow (ih (by simpa only [List.append_assoc] using hafter))

end SchemaHeap.Listing

namespace World

variable {P : Producers} {registry : RegistryId} {w w₁ w' : World P}

/-- What growth adds to the registry has the given names. -/
theorem Grows.exists_added {names : String → Prop} (h : Grows registry names w w')
    (hheld : w.HasRegistry registry) :
    ∃ added, (w'.registryAt registry).entries = (w.registryAt registry).entries ++ added ∧
      ∀ entry ∈ added, names entry.1 := by
  induction h with
  | refl => exact ⟨[], by simp, by simp⟩
  | @tail middle last hgrows hstep ih =>
    obtain ⟨added, hentries, hnames⟩ := ih
    cases hstep with
    | @construct type t hname hconstruct =>
      refine ⟨added ++ [(type.name, t)], ?_,
        List.forall_mem_append.mpr ⟨hnames, by simpa using hname⟩⟩
      rw [entries_construct (Grows.hasRegistry hgrows hheld) hconstruct, hentries,
        List.append_assoc]

/-- The registry of the second world is that of the first one with a listing of the forest
appended. -/
def Lists (heap : SchemaHeap) (exclude : List String) (registry : RegistryId)
    (forest : List (String × SchemaId)) (w w' : World P) : Prop :=
  ∃ added, (w'.registryAt registry).entries = (w.registryAt registry).entries ++ added ∧
    heap.Listing exclude (w.registryAt registry).keys forest (added.map Prod.fst)

variable {heap : SchemaHeap} {exclude : List String}

theorem Lists.nil (w : World P) : Lists heap exclude registry [] w w :=
  ⟨[], by simp, .nil⟩

theorem Lists.append {forest others : List (String × SchemaId)}
    (hfirst : Lists heap exclude registry forest w w₁)
    (hsecond : Lists heap exclude registry others w₁ w') :
    Lists heap exclude registry (forest ++ others) w w' := by
  obtain ⟨added, hentries, hlisting⟩ := hfirst
  obtain ⟨more, hentries', hlisting'⟩ := hsecond
  refine ⟨added ++ more, by rw [hentries', hentries, List.append_assoc], ?_⟩
  rw [OrderedMap.keys, hentries, List.map_append] at hlisting'
  rw [List.map_append]
  exact hlisting.append hlisting'

/-- A type that is constructed under a new name after the types nested in it completes a listing. -/
theorem Lists.construct {type : GeneratedType P} {schema : SchemaId} {t : TypeId}
    (hnested : Lists heap exclude registry
      (nestedTypes type.name schema (heap.kept exclude schema)) w w₁)
    (hnew : type.name ∉ (w.registryAt registry).keys) (hheld : w₁.HasRegistry registry)
    (h : w₁.construct registry type = (.ok t, w')) :
    ∃ added, (w'.registryAt registry).entries = (w.registryAt registry).entries ++ added ∧
      added.getLast? = some (type.name, t) ∧
      heap.Listing exclude (w.registryAt registry).keys [(type.name, schema)]
        (added.map Prod.fst) := by
  obtain ⟨added, hentries, hlisting⟩ := hnested
  refine ⟨added ++ [(type.name, t)], ?_, by simp, ?_⟩
  · rw [entries_construct hheld h, hentries, List.append_assoc]
  · simpa using SchemaHeap.Listing.new hnew hlisting .nil

end World

open World

variable {P : Producers} {heap : SchemaHeap} {registry : RegistryId} {ancestors : Lineage}
  {request : BuildRequest P} {w w' : World P}

/-- The builds that a walk makes for the paths of the request append their listings. -/
def NestedBuildsList (heap : SchemaHeap) (registry : RegistryId) (ancestors : Lineage)
    (request : BuildRequest P) : Prop :=
  ∀ field target w t w', target ≠ request.schema → target ∉ ancestors.schemas →
    heap.isAlive target = true → w.HasRegistry registry →
    buildWithin heap registry (ancestors ++ [(request.name, request.schema)])
      (request.nested field target) w = (.ok t, w') →
    Lists heap request.exclude registry [(subFieldName request.name field, target)] w w'

/-- A walk appends the listing of the types that its paths nest, when the nested builds append
theirs. What the first path appends is there when the others look for their names. -/
theorem walk_lists (hbuild : NestedBuildsList heap registry ancestors request)
    {paths : List (String × PathDescriptor SchemaLink)}
    (hkept : ∀ path ∈ paths, path.1 ∉ request.exclude)
    {layers : FieldThunk (DeferredField P) (DeferredMap P)} (hheld : w.HasRegistry registry)
    (h : walk request registry (nestedBuild heap registry ancestors request) paths w =
      (.ok layers, w')) :
    Lists heap request.exclude registry (nestedTypes request.name request.schema paths) w w' := by
  induction paths generalizing w layers with
  | nil =>
    obtain ⟨-, rfl⟩ := Prod.mk.inj h
    exact Lists.nil w
  | cons path rest ih =>
    obtain ⟨field, d⟩ := path
    obtain ⟨hfield, hrest⟩ := List.forall_mem_cons.mp hkept
    obtain ⟨layer, w₁, more, hlayer, hmore, rfl⟩ := walk_cons_eq_ok hfield h
    have hlists := ih hrest ((pathLayer_grows_nested hlayer).hasRegistry hheld) hmore
    rcases pathLayer_eq_ok hlayer with
      ⟨hnone, rfl⟩ | ⟨target, t, hself, hother, hcycle, halive, hrun⟩
    · rwa [nestedTypes, List.filterMap_cons_none (by simp [hnone])]
    · rw [nestedTypes, List.filterMap_cons_some (b := (subFieldName request.name field, target))
        (by simp [hother])]
      exact (hbuild field target w t w₁ hself hcycle halive hheld hrun).append hlists

/-- A build of a new name that succeeds appends the listing of the name, which comes last. -/
theorem buildWithin_lists_of_new {t : TypeId}
    (hnested : NestedBuildsList heap registry ancestors request)
    (hheld : w.HasRegistry registry) (hnew : w.lookup registry request.name = none)
    (h : buildWithin heap registry ancestors request w = (.ok t, w')) :
    ∃ added, (w'.registryAt registry).entries = (w.registryAt registry).entries ++ added ∧
      added.getLast? = some (request.name, t) ∧
      heap.Listing request.exclude (w.registryAt registry).keys [(request.name, request.schema)]
        (added.map Prod.fst) := by
  obtain ⟨-, -, ⟨hlookup, -⟩ | ⟨-, layers, w₁, hwalk, hconstruct⟩⟩ := buildWithin_eq_ok h
  · exact absurd (hnew.symm.trans hlookup) (by simp)
  · have hkept : ∀ path ∈ heap.kept request.exclude request.schema, path.1 ∉ request.exclude :=
      fun _ hpath ↦ (SchemaHeap.mem_kept.mp hpath).2
    exact (walk_lists hnested hkept hheld hwalk).construct (lookup_eq_none_iff.mp hnew)
      ((walk_grows_nested hwalk).hasRegistry hheld) hconstruct

/-- A build that succeeds appends the listing of the requested name. -/
theorem buildWithin_lists {t : TypeId} (hheld : w.HasRegistry registry)
    (h : buildWithin heap registry ancestors request w = (.ok t, w')) :
    Lists heap request.exclude registry [(request.name, request.schema)] w w' := by
  induction ancestors, request, w using nested_induction heap generalizing t w' with
  | step ancestors request w ih =>
    obtain ⟨-, -, ⟨hlookup, rfl⟩ | ⟨hnew, -⟩⟩ := buildWithin_eq_ok h
    · exact ⟨[], by simp, .registered (OrderedMap.mem_keys_of_lookup? hlookup) .nil⟩
    · have hnested : NestedBuildsList heap registry ancestors request :=
        fun field target w t w' hself hcycle halive hheld hrun ↦
          ih field target w hself hcycle halive hheld hrun
      obtain ⟨added, hentries, -, hlisting⟩ := buildWithin_lists_of_new hnested hheld hnew h
      exact ⟨added, hentries, hlisting⟩

/-- A build that fails registers nested names only. -/
theorem buildWithin_grows_of_error {e : BuildError}
    (hnew : w.lookup registry request.name = none)
    (h : buildWithin heap registry ancestors request w = (.error e, w')) :
    Grows registry (IsNestedName request.name) w w' := by
  rcases buildWithin_cases h with ⟨-, rfl, -⟩ | ⟨t, hlookup, -, -⟩ |
    ⟨-, -, ⟨e', hwalk, -⟩ | ⟨layers, w₁, hwalk, hconstruct⟩⟩
  · exact Grows.refl _
  · exact absurd (hnew.symm.trans hlookup) (by simp)
  · exact walk_grows_nested hwalk
  · obtain ⟨rfl, -⟩ := construct_eq_error hconstruct
    exact walk_grows_nested hwalk

/-- What a build of a new name does to its registry. Entries that are there stay in front, and the
types that exist stay what they are. A build that succeeds appends names in the one post-order of
the types to build, so that its own name and its type come last. A build that fails does not
register its own name, and appends names nested in it. -/
theorem build_appends_postOrder {result : Except BuildError TypeId}
    (hheld : w.HasRegistry registry) (hnew : w.lookup registry request.name = none)
    (h : w.build heap registry request = (result, w')) :
    (∀ t < w.nextType, w'.typeAt t = w.typeAt t) ∧
    ∃ added, (w'.registryAt registry).entries = (w.registryAt registry).entries ++ added ∧
      match result with
      | .ok t => added.getLast? = some (request.name, t) ∧
          ∀ listed, heap.Listing request.exclude (w.registryAt registry).keys
            [(request.name, request.schema)] listed ↔ added.map Prod.fst = listed
      | .error _ => w'.lookup registry request.name = none ∧
          ∀ entry ∈ added, IsNestedName request.name entry.1 := by
  refine ⟨fun t ↦ (later_build hheld h).1.typeAt, ?_⟩
  cases result with
  | ok t =>
    have hnested : NestedBuildsList heap registry [] request :=
      fun _ _ _ _ _ _ _ _ hheld hrun ↦ buildWithin_lists hheld hrun
    obtain ⟨added, hentries, hlast, hlisting⟩ := buildWithin_lists_of_new hnested hheld hnew h
    exact ⟨added, hentries, hlast, fun listed ↦ ⟨hlisting.unique, fun hsame ↦ hsame ▸ hlisting⟩⟩
  | error e =>
    have hgrows := buildWithin_grows_of_error hnew h
    obtain ⟨added, hentries, hnames⟩ := hgrows.exists_added hheld
    refine ⟨added, hentries, lookup_eq_none_iff.mpr fun hmem ↦ ?_, hnames⟩
    rcases hgrows.mem_keys hheld hmem with hold | hnested
    · exact lookup_eq_none_iff.mp hnew hold
    · exact hnested.ne rfl

/-- Animals with a home and then a field of an unknown kind. -/
def strayHeap : SchemaHeap :=
  ⟨#[some (.ofList
      [("home", ⟨.embedded (.shared 1), false⟩), ("age", ⟨.primitive (.other "Age"), false⟩)]),
    some (.ofList [("city", ⟨.primitive .string, false⟩)])]⟩

/-- The home of an animal comes before the animal, and stays when the animal cannot be built. -/
theorem build_appends_postOrder_animal :
    newWorld.HasRegistry 0 ∧ newWorld.lookup 0 animalRequest.name = none ∧
    (∃ w', newWorld.build animalHeap 0 animalRequest = (.ok 1, w') ∧
      (w'.registryAt 0).keys = ["Animal_home", "Animal"] ∧
      ∀ listed, animalHeap.Listing [] [] [("Animal", 0)] listed ↔
        ["Animal_home", "Animal"] = listed) ∧
    ∃ w', newWorld.build strayHeap 0 animalRequest = (.error (.unknownPrimitiveKind "Age"), w') ∧
      (w'.registryAt 0).keys = ["Animal_home"] ∧ w'.lookup 0 "Animal" = none ∧
      IsNestedName "Animal" "Animal_home" := by
  have hheld : newWorld.HasRegistry 0 := by decide
  have hnew : newWorld.lookup 0 animalRequest.name = none := by decide
  have hempty : (newWorld.registryAt 0).entries = [] := by decide
  refine ⟨hheld, hnew, ?_, ?_⟩
  · have hentries : ((newWorld.build animalHeap 0 animalRequest).2.registryAt 0).entries =
        [("Animal_home", 0), ("Animal", 1)] := by decide +kernel
    obtain ⟨-, added, hadded, -, hlisting⟩ := build_appends_postOrder hheld hnew build_animal
    obtain rfl : added = [("Animal_home", 0), ("Animal", 1)] := by
      rw [← hentries, hadded, hempty, List.nil_append]
    exact ⟨_, build_animal, congrArg (List.map Prod.fst) hentries, hlisting⟩
  · have hresult : (newWorld.build strayHeap 0 animalRequest).1 =
        .error (.unknownPrimitiveKind "Age") := by decide +kernel
    have hentries : ((newWorld.build strayHeap 0 animalRequest).2.registryAt 0).entries =
        [("Animal_home", 0)] := by decide +kernel
    have hbuild : newWorld.build strayHeap 0 animalRequest =
        (.error (.unknownPrimitiveKind "Age"), (newWorld.build strayHeap 0 animalRequest).2) :=
      Prod.ext hresult rfl
    obtain ⟨-, added, hadded, hmissing, hnames⟩ := build_appends_postOrder hheld hnew hbuild
    obtain rfl : added = [("Animal_home", 0)] := by
      rw [← hentries, hadded, hempty, List.nil_append]
    exact ⟨_, hbuild, congrArg (List.map Prod.fst) hentries, hmissing,
      hnames _ List.mem_cons_self⟩

end DocumentTypes

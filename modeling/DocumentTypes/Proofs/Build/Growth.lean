import DocumentTypes.Proofs.Build.Unfolding
import DocumentTypes.Proofs.WorldHistory

/-!
What building does to the world: it constructs types in its registry, one after the other, and
nothing else (`World.Grows`, `buildWithin_grows`). The names of the new types are the requested one
and names nested in it (`IsNestedName`); while the paths of a schema are walked only nested names
come up (`walk_grows_nested`), so the requested name is registered last. Growth keeps the registry
and what it holds (`World.Grows.later`, `World.Grows.prefix_entries`), and a name that is
registered afterwards was registered before or belongs to a new type (`World.Grows.mem_keys`).
-/

set_option autoImplicit false

namespace DocumentTypes

/-- The names that start with `parent` and an underscore: those of the types nested in it, at any
depth, are such names. -/
def IsNestedName (parent name : String) : Prop :=
  ∃ rest, name = subFieldName parent rest

theorem isNestedName_subFieldName (parent field : String) :
    IsNestedName parent (subFieldName parent field) :=
  ⟨field, rfl⟩

theorem IsNestedName.trans {grandparent parent name : String}
    (hparent : IsNestedName grandparent parent) (hname : IsNestedName parent name) :
    IsNestedName grandparent name := by
  obtain ⟨first, rfl⟩ := hparent
  obtain ⟨second, rfl⟩ := hname
  exact ⟨first ++ "_" ++ second, by simp only [subFieldName, String.append_assoc]⟩

theorem IsNestedName.length_lt {parent name : String} (h : IsNestedName parent name) :
    parent.length < name.length := by
  obtain ⟨rest, rfl⟩ := h
  have hunderscore : "_".length = 1 := rfl
  rw [subFieldName, String.length_append, String.length_append, hunderscore]
  omega

theorem IsNestedName.ne {parent name : String} (h : IsNestedName parent name) : name ≠ parent :=
  fun heq ↦ absurd h.length_lt (by rw [heq]; exact lt_irrefl _)

theorem IsNestedName.ne_empty {parent name : String} (h : IsNestedName parent name) :
    name ≠ "" := by
  rintro rfl
  exact absurd h.length_lt (Nat.not_lt_zero _)

variable {P : Producers} {registry : RegistryId} {names : String → Prop}

namespace World

variable {w w' : World P}

theorem construct_eq_ok {type : GeneratedType P} {t : TypeId}
    (h : w.construct registry type = (.ok t, w')) :
    t = w.nextType ∧ (w.addType type).register registry type.name w.nextType = .ok w' := by
  unfold construct at h
  split at h
  · exact absurd h (by simp)
  · next w₁ hregister =>
    obtain ⟨ht, rfl⟩ := Prod.mk.inj h
    exact ⟨(Except.ok.inj ht).symm, hregister⟩

/-- Only a name that is in use already is refused, and then nothing changes. -/
theorem construct_eq_error {type : GeneratedType P} {e : BuildError}
    (h : w.construct registry type = (.error e, w')) : w' = w ∧ e = .duplicateName type.name := by
  unfold construct at h
  split at h
  · next e' hregister =>
    obtain ⟨he, rfl⟩ := Prod.mk.inj h
    obtain rfl := Except.error.inj he
    refine ⟨rfl, ?_⟩
    unfold register Registry.register at hregister
    split at hregister
    · next e' hrefused =>
      split at hrefused
      · exact (Except.error.inj hregister).symm.trans (Except.error.inj hrefused).symm
      · exact absurd hrefused (by simp)
    · exact absurd hregister (by simp)
  · exact absurd h (by simp)

/-- A type with one of the names is added and registered under its name. -/
inductive Constructs (registry : RegistryId) (names : String → Prop) : World P → World P → Prop
  | construct {w w' : World P} {type : GeneratedType P} {t : TypeId} (hname : names type.name)
      (h : w.construct registry type = (.ok t, w')) : Constructs registry names w w'

/-- Types with some of the names are added and registered under their names, in any number. -/
def Grows (registry : RegistryId) (names : String → Prop) : World P → World P → Prop :=
  Relation.ReflTransGen (Constructs registry names)

/-- A constructed type is the newest one, registered at the end. -/
theorem entries_construct {type : GeneratedType P} {t : TypeId} (halive : w.HasRegistry registry)
    (h : w.construct registry type = (.ok t, w')) :
    (w'.registryAt registry).entries = (w.registryAt registry).entries ++ [(type.name, t)] := by
  obtain ⟨rfl, hregister⟩ := construct_eq_ok h
  exact entries_register (w := w.addType type) halive hregister

theorem later_construct {type : GeneratedType P} {t : TypeId} (halive : w.HasRegistry registry)
    (h : w.construct registry type = (.ok t, w')) : Later w w' := by
  obtain ⟨rfl, hregister⟩ := construct_eq_ok h
  have hnew : w.nextType < (w.addType type).nextType := by
    rw [nextType, nextType, addType, Array.size_push]
    exact Nat.lt_succ_self _
  exact (Relation.ReflTransGen.single (Step.addType w type)).tail
    (Step.register (w := w.addType type) halive hnew hregister)

theorem hasRegistry_construct {type : GeneratedType P} {t : TypeId}
    (halive : w.HasRegistry registry) (h : w.construct registry type = (.ok t, w')) :
    w'.HasRegistry registry := by
  obtain ⟨rfl, hregister⟩ := construct_eq_ok h
  have hlt : registry < (w.addType type).nextRegistry := lt_nextRegistry_of_hasRegistry halive
  rw [HasRegistry, (register_eq_ok hregister).2, registry?_setRegistry, if_pos ⟨rfl, hlt⟩]
  rfl

theorem Grows.refl (w : World P) : Grows registry names w w :=
  Relation.ReflTransGen.refl

theorem Grows.trans {w₁ w₂ w₃ : World P} (hfirst : Grows registry names w₁ w₂)
    (hsecond : Grows registry names w₂ w₃) : Grows registry names w₁ w₃ :=
  Relation.ReflTransGen.trans hfirst hsecond

/-- Construction adds one type, or nothing when it is refused. -/
theorem Grows.of_construct {type : GeneratedType P} {result : Except BuildError TypeId}
    (hname : names type.name) (h : w.construct registry type = (result, w')) :
    Grows registry names w w' := by
  cases result with
  | error e =>
    obtain ⟨rfl, -⟩ := construct_eq_error h
    exact Grows.refl _
  | ok t => exact Relation.ReflTransGen.single (.construct hname h)

theorem Grows.mono {more : String → Prop} (hmore : ∀ name, names name → more name)
    (h : Grows registry names w w') : Grows registry more w w' :=
  Relation.ReflTransGen.mono
    (fun _ _ ⟨hname, hconstruct⟩ ↦ .construct (hmore _ hname) hconstruct) _ _ h

theorem Grows.hasRegistry (h : Grows registry names w w') (halive : w.HasRegistry registry) :
    w'.HasRegistry registry := by
  induction h with
  | refl => exact halive
  | tail _ hstep ih =>
    obtain ⟨_, hconstruct⟩ := hstep
    exact hasRegistry_construct ih hconstruct

theorem Grows.later (h : Grows registry names w w') (halive : w.HasRegistry registry) :
    Later w w' := by
  induction h with
  | refl => exact Later.refl _
  | tail hgrows hstep ih =>
    obtain ⟨_, hconstruct⟩ := hstep
    exact ih.trans (later_construct (Grows.hasRegistry hgrows halive) hconstruct)

theorem Grows.prefix_entries (h : Grows registry names w w') (halive : w.HasRegistry registry) :
    (w.registryAt registry).entries <+: (w'.registryAt registry).entries :=
  (h.later halive).prefix_entries (h.hasRegistry halive)

/-- A registered name was registered before, or belongs to one of the new types. -/
theorem Grows.mem_keys (h : Grows registry names w w') (halive : w.HasRegistry registry)
    {name : String} (hname : name ∈ (w'.registryAt registry).keys) :
    name ∈ (w.registryAt registry).keys ∨ names name := by
  induction h with
  | refl => exact Or.inl hname
  | tail hgrows hstep ih =>
    obtain ⟨hnew, hconstruct⟩ := hstep
    rw [OrderedMap.keys, entries_construct (Grows.hasRegistry hgrows halive) hconstruct,
      List.map_append, List.mem_append] at hname
    rcases hname with hold | hlast
    · exact ih hold
    · obtain rfl := List.mem_singleton.mp hlast
      exact Or.inr hnew

end World

open World

section Walk

variable {request : BuildRequest P}
  {nested : (field : String) → (target : SchemaId) → target ≠ request.schema → World P →
    Except BuildError TypeId × World P}

theorem pathLayer_grows
    (hnested : ∀ field target hself w, Grows registry names w (nested field target hself w).2)
    {field : String} {d : PathDescriptor SchemaLink} {w w' : World P}
    {result : Except BuildError (FieldLayer (DeferredField P) (DeferredMap P))}
    (h : pathLayer request registry nested field d w = (result, w')) :
    Grows registry names w w' := by
  rcases pathLayer_cases h with ⟨-, rfl, -⟩ | ⟨target, hself, -, ⟨e, hrun, -⟩ | ⟨type, hrun, -⟩⟩
  · exact Grows.refl _
  · have hgrows := hnested field target hself w
    rwa [hrun] at hgrows
  · have hgrows := hnested field target hself w
    rwa [hrun] at hgrows

/-- A walk does to the world what the nested builds do. -/
theorem walk_grows
    (hnested : ∀ field target hself w, Grows registry names w (nested field target hself w).2)
    (paths : List (String × PathDescriptor SchemaLink)) (w : World P) :
    Grows registry names w (walk request registry nested paths w).2 := by
  fun_induction walk request registry nested paths w with
  | case1 w => exact Grows.refl w
  | case2 field d rest w hexclude ih => exact ih
  | case3 field d rest w hexclude e w₁ hlayer => exact pathLayer_grows hnested hlayer
  | case4 field d rest w hexclude layer w₁ hlayer e w₂ hrest ih =>
    rw [hrest] at ih
    exact (pathLayer_grows hnested hlayer).trans ih
  | case5 field d rest w hexclude layer w₁ hlayer layers w₂ hrest ih =>
    rw [hrest] at ih
    exact (pathLayer_grows hnested hlayer).trans ih

end Walk

/-- The requested name and the names nested in it. -/
def IsOwnName (request : BuildRequest P) (name : String) : Prop :=
  name = request.name ∨ IsNestedName request.name name

/-- A nested build registers nested names only, when the build inside it keeps to its own. -/
theorem nestedBuild_grows {heap : SchemaHeap} {ancestors : Lineage} {request : BuildRequest P}
    (hbuild : ∀ field target w, target ≠ request.schema → target ∉ ancestors.schemas →
      heap.isAlive target = true →
      Grows registry (IsOwnName (request.nested field target)) w
        (buildWithin heap registry (ancestors ++ [(request.name, request.schema)])
          (request.nested field target) w).2)
    (field : String) (target : SchemaId) (hself : target ≠ request.schema) (w : World P) :
    Grows registry (IsNestedName request.name) w
      (nestedBuild heap registry ancestors request field target hself w).2 := by
  rcases hrun : nestedBuild heap registry ancestors request field target hself w with ⟨result, w'⟩
  rcases nestedBuild_cases hrun with ⟨-, rfl, -⟩ | ⟨-, rfl, -⟩ | ⟨hcycle, halive, hnested⟩
  · exact Grows.refl _
  · exact Grows.refl _
  · have hgrows := hbuild field target w hself hcycle halive
    rw [hnested] at hgrows
    refine hgrows.mono ?_
    rintro name (rfl | hname)
    · exact isNestedName_subFieldName request.name field
    · exact (isNestedName_subFieldName request.name field).trans hname

/-- Building only adds types, under the requested name and names nested in it. -/
theorem buildWithin_grows (heap : SchemaHeap) (ancestors : Lineage) (request : BuildRequest P)
    (w : World P) :
    Grows registry (IsOwnName request) w (buildWithin heap registry ancestors request w).2 := by
  induction ancestors, request, w using nested_induction heap with
  | step ancestors request w ih =>
    have hwalk := walk_grows (nestedBuild_grows ih) (heap.kept request.exclude request.schema) w
    rcases hrun : buildWithin heap registry ancestors request w with ⟨result, w'⟩
    rcases buildWithin_cases hrun with ⟨-, rfl, -⟩ | ⟨t, -, rfl, -⟩ |
      ⟨-, -, ⟨e, herror, -⟩ | ⟨layers, w₁, hok, hconstruct⟩⟩
    · exact Grows.refl _
    · exact Grows.refl _
    · rw [herror] at hwalk
      exact hwalk.mono fun name ↦ Or.inr
    · rw [hok] at hwalk
      have hown : Grows registry (IsOwnName request) w w₁ := hwalk.mono fun name ↦ Or.inr
      exact hown.trans (Grows.of_construct (Or.inl rfl) hconstruct)

theorem World.later_build {heap : SchemaHeap} {request : BuildRequest P} {w w' : World P}
    {result : Except BuildError TypeId} (halive : w.HasRegistry registry)
    (h : w.build heap registry request = (result, w')) : Later w w' ∧ w'.HasRegistry registry := by
  have hgrows : Grows registry (IsOwnName request) w (w.build heap registry request).2 :=
    buildWithin_grows heap [] request w
  rw [h] at hgrows
  exact ⟨hgrows.later halive, hgrows.hasRegistry halive⟩

section Nested

variable {heap : SchemaHeap} {ancestors : Lineage} {request : BuildRequest P} {w w' : World P}

/-- While a path is looked at, only nested names are registered. -/
theorem pathLayer_grows_nested {field : String} {d : PathDescriptor SchemaLink}
    {result : Except BuildError (FieldLayer (DeferredField P) (DeferredMap P))}
    (h : pathLayer request registry (nestedBuild heap registry ancestors request) field d w =
      (result, w')) : Grows registry (IsNestedName request.name) w w' :=
  pathLayer_grows (nestedBuild_grows fun _ _ w _ _ _ ↦ buildWithin_grows heap _ _ w) h

/-- While the paths of a schema are walked, only nested names are registered. -/
theorem walk_grows_nested {paths : List (String × PathDescriptor SchemaLink)}
    {result : Except BuildError (FieldThunk (DeferredField P) (DeferredMap P))}
    (h : walk request registry (nestedBuild heap registry ancestors request) paths w =
      (result, w')) : Grows registry (IsNestedName request.name) w w' := by
  have hgrows : Grows registry (IsNestedName request.name) w
      (walk request registry (nestedBuild heap registry ancestors request) paths w).2 :=
    walk_grows (nestedBuild_grows fun _ _ w _ _ _ ↦ buildWithin_grows heap _ _ w) paths w
  rwa [h] at hgrows

end Nested

end DocumentTypes

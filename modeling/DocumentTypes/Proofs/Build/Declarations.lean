import DocumentTypes.Definitions
import DocumentTypes.Proofs.Build.ClosedRegistry

/-!
Building the declared types one after the other. The request of a declaration has its name, one of
the loaded schemas, and overrides that the registry resolves for it (`Definitions.request_eq_ok`),
so a registry that is closed stays closed, also when a declaration fails (`buildEach_closed`). The
types that are given are registered under the declared names (`buildEach_registered`). Where the
embedded schemas come before those that embed them (`SchemaHeap.Descends`), the errors are those of
a single declaration (`DeclarationFault`, `buildEach_error`): no nested type closes a cycle, because
the schemas of the enclosing types all come later, and no name is registered twice, because only
longer names come up while a type is built (`buildWithin_error`).
-/

set_option autoImplicit false

namespace DocumentTypes

open World

variable {P : Producers} {heap : SchemaHeap} {registry : RegistryId}

/-! ### Requests -/

namespace Definitions

variable {definitions : Definitions} {declaration : TypeDeclaration}

theorem readTypeMap_eq_error {entries : List (String × String)} {e : LoadError}
    (h : readTypeMap entries = .error e) : ∃ text, e = .invalidTypeExpr text := by
  induction entries generalizing e with
  | nil => exact absurd h (by simp [readTypeMap])
  | cons entry rest ih =>
    obtain ⟨field, text⟩ := entry
    unfold readTypeMap at h
    cases hparse : TypeExpr.parse text with
    | error e' =>
      rw [hparse] at h
      obtain rfl := Except.error.inj h
      exact ⟨text, (TypeExpr.parse_eq_error_iff.mp hparse).2⟩
    | ok expr =>
      rw [hparse] at h
      cases hrest : readTypeMap rest with
      | error e' =>
        simp only [hrest] at h
        obtain rfl := Except.error.inj h
        exact ih hrest
      | ok entries => exact absurd h (by simp [hrest, Except.map])

theorem typeMapSource_eq_ok {overrides : OrderedMap String} {name : String}
    {source : FieldSource (DeferredMap P)}
    (h : typeMapSource overrides registry name = .ok source) :
    ClosedSource registry name source := by
  unfold typeMapSource at h
  split at h
  · exact Or.inl (Except.ok.inj h).symm
  · cases hentries : readTypeMap overrides.entries with
    | error e => exact absurd h (by simp [hentries, Except.map])
    | ok entries =>
      rw [hentries] at h
      exact Or.inr ⟨entries, (Except.ok.inj h).symm⟩

theorem typeMapSource_eq_error {overrides : OrderedMap String} {name : String} {e : LoadError}
    (h : (typeMapSource overrides registry name : Except _ (FieldSource (DeferredMap P))) =
      .error e) : ∃ text, e = .invalidTypeExpr text := by
  unfold typeMapSource at h
  split at h
  · exact absurd h (by simp)
  · cases hentries : readTypeMap overrides.entries with
    | error e' =>
      rw [hentries] at h
      obtain rfl := Except.error.inj h
      exact readTypeMap_eq_error hentries
    | ok entries => exact absurd h (by simp [hentries, Except.map])

/-- A request that can be made asks for one of the loaded schemas under the declared name. -/
theorem request_eq_ok {request : BuildRequest P}
    (h : definitions.request declaration registry = .ok request) :
    request.name = declaration.name ∧
      definitions.schemas.lookup? declaration.schema = some request.schema ∧
      ClosedSource registry request.name request.extend ∧
      ClosedSource registry request.name request.props := by
  unfold Definitions.request at h
  split at h
  · exact absurd h (by simp)
  · next schema hschema =>
    split at h
    · exact absurd h (by simp)
    · split at h
      · exact absurd h (by simp)
      · next extend hextend =>
        split at h
        · exact absurd h (by simp)
        · next props hprops =>
          obtain rfl := Except.ok.inj h
          exact ⟨rfl, hschema, typeMapSource_eq_ok hextend, typeMapSource_eq_ok hprops⟩

end Definitions

/-- What can be wrong with a declaration: its schema, its class, its overrides, its name or a schema
without fields, or a primitive kind in its schema. -/
inductive DeclarationFault : LoadError → Prop
  | unknownSchema (schema typeName : String) :
      DeclarationFault (.unknownSchema schema (.declaration typeName))
  | invalidClassKind (value : String) : DeclarationFault (.build (.invalidClassKind value))
  | invalidTypeExpr (text : String) : DeclarationFault (.invalidTypeExpr text)
  | missingOption (option : RequiredOption) : DeclarationFault (.build (.missingOption option))
  | unknownPrimitiveKind (kind : String) : DeclarationFault (.build (.unknownPrimitiveKind kind))

theorem Definitions.request_eq_error {definitions : Definitions} {declaration : TypeDeclaration}
    {e : LoadError} (h : (definitions.request declaration registry :
      Except LoadError (BuildRequest P)) = .error e) : DeclarationFault e := by
  unfold Definitions.request at h
  split at h
  · obtain rfl := Except.error.inj h
    exact .unknownSchema _ _
  · split at h
    · next e' hclass =>
      obtain rfl := Except.error.inj h
      unfold ClassKind.ofName at hclass
      split at hclass
      · exact absurd hclass (by simp)
      · obtain rfl := Except.error.inj hclass
        exact .invalidClassKind _
    · split at h
      · next e' hextend =>
        obtain rfl := Except.error.inj h
        obtain ⟨text, rfl⟩ := Definitions.typeMapSource_eq_error hextend
        exact .invalidTypeExpr text
      · split at h
        · next e' hprops =>
          obtain rfl := Except.error.inj h
          obtain ⟨text, rfl⟩ := Definitions.typeMapSource_eq_error hprops
          exact .invalidTypeExpr text
        · exact absurd h (by simp)

/-! ### Descending embeddings -/

/-- Where one of the places in `held` embeds another one, that one is in `held` too and comes
before. -/
def SchemaHeap.Descends (heap : SchemaHeap) (held : SchemaId → Prop) : Prop :=
  ∀ id, held id → ∀ path ∈ heap.paths id, ∀ target, path.2.otherSchema? id = some target →
    held target ∧ target < id

/-- Only a name that is registered already is refused. -/
theorem World.mem_keys_of_construct_error {w w' : World P} {type : GeneratedType P} {e : BuildError}
    (h : w.construct registry type = (.error e, w')) :
    type.name ∈ (w.registryAt registry).keys := by
  by_contra hnew
  have hcontains : (w.registryAt registry).contains type.name = false := by
    simpa [OrderedMap.contains] using hnew
  have hregistry : (w.addType type).registryAt registry = w.registryAt registry := rfl
  unfold construct register Registry.register at h
  rw [hregistry, hcontains] at h
  exact absurd h (by simp)

/-- A walk leaves the requested name free, as only nested names come up. -/
theorem notMem_keys_of_walk {ancestors : Lineage} {request : BuildRequest P} {w w' : World P}
    {paths : List (String × PathDescriptor SchemaLink)}
    {result : Except BuildError (FieldThunk (DeferredField P) (DeferredMap P))}
    (halive : w.HasRegistry registry) (hnew : w.lookup registry request.name = none)
    (h : walk request registry (nestedBuild heap registry ancestors request) paths w =
      (result, w')) : request.name ∉ (w'.registryAt registry).keys := by
  intro hused
  rcases (walk_grows_nested h).mem_keys halive hused with hbefore | hnested
  · exact absurd hbefore (lookup_eq_none_iff.mp hnew)
  · exact absurd rfl hnested.ne

/-- On descending embeddings, a build fails only for a missing option or an unknown kind. The
schemas around a call come after its own, and an embedded one comes before it, so no cycle is
closed. -/
theorem buildWithin_error {held : SchemaId → Prop} (hdescends : heap.Descends held)
    (ancestors : Lineage) (request : BuildRequest P) (w : World P) (hheld : held request.schema)
    (habove : ∀ schema ∈ ancestors.schemas, request.schema < schema)
    (halive : w.HasRegistry registry) {w' : World P} {e : BuildError}
    (h : buildWithin heap registry ancestors request w = (.error e, w')) :
    (∃ option, e = .missingOption option) ∨ ∃ kind, e = .unknownPrimitiveKind kind := by
  induction ancestors, request, w using nested_induction heap generalizing w' e with
  | step ancestors request w ih =>
    rcases buildWithin_cases h with ⟨-, -, option, hoption⟩ | ⟨t, -, -, hresult⟩ |
      ⟨-, hnew, ⟨e', hwalk, herror⟩ | ⟨layers, w₁, hwalk, hconstruct⟩⟩
    · exact Or.inl ⟨option, Except.error.inj hoption⟩
    · exact absurd hresult (by simp)
    · obtain rfl := Except.error.inj herror
      obtain ⟨before, field, d, after, layers, w₁, hkept, hbefore, hlayer⟩ := walk_eq_error hwalk
      rcases pathLayer_cases hlayer with ⟨-, -, hkind⟩ | ⟨target, hself, hother, hresult⟩
      · exact Or.inr (hkind e rfl)
      · rcases hresult with ⟨e', hnested, herror⟩ | ⟨type, -, hok⟩
        · obtain rfl := Except.error.inj herror
          have hpath := (SchemaHeap.of_kept_eq_append hkept).1
          obtain ⟨htarget, hlt⟩ := hdescends _ hheld _ hpath target hother
          rcases nestedBuild_cases hnested with ⟨hcycle, -, -⟩ | ⟨-, -, hdead⟩ |
            ⟨hcycle, hlives, hbuild⟩
          · exact absurd (habove target hcycle) (Nat.lt_asymm hlt)
          · exact Or.inl ⟨.schema, Except.error.inj hdead⟩
          · refine ih field target w₁ hself hcycle hlives htarget ?_
              ((walk_grows_nested hbefore).hasRegistry halive) hbuild
            intro schema hschema
            rw [Lineage.schemas, List.map_append, List.mem_append, List.map_singleton,
              List.mem_singleton] at hschema
            rcases hschema with hancestor | rfl
            · exact hlt.trans (habove schema hancestor)
            · exact hlt
        · exact absurd hok (by simp)
    · exact absurd (mem_keys_of_construct_error hconstruct)
        (notMem_keys_of_walk halive hnew hwalk)

/-! ### Declarations in order -/

namespace Definitions

variable {definitions : Definitions} {declaration : TypeDeclaration}
  {declarations : List TypeDeclaration} {w w' : World P}

/-- What building a declaration can do: fail to make the request, or build what it asks for. -/
theorem buildOne_cases {result : Except LoadError TypeId}
    (h : definitions.buildOne heap registry declaration w = (result, w')) :
    (∃ e, (definitions.request declaration registry : Except LoadError (BuildRequest P)) =
        .error e ∧ result = .error e ∧ w' = w) ∨
      ∃ (request : BuildRequest P) (built : Except BuildError TypeId),
        definitions.request declaration registry = .ok request ∧
          w.build heap registry request = (built, w') ∧ result = built.mapError .build := by
  unfold buildOne at h
  split at h
  · next e hrequest =>
    obtain ⟨rfl, rfl⟩ := Prod.mk.inj h
    exact Or.inl ⟨e, hrequest, rfl, rfl⟩
  · next request hrequest =>
    split at h
    · next e w₁ hbuild =>
      obtain ⟨rfl, rfl⟩ := Prod.mk.inj h
      exact Or.inr ⟨request, _, hrequest, hbuild, rfl⟩
    · next t w₁ hbuild =>
      obtain ⟨rfl, rfl⟩ := Prod.mk.inj h
      exact Or.inr ⟨request, _, hrequest, hbuild, rfl⟩

/-- What building more declarations can do: fail with the first, or go on where it stood. -/
theorem buildEach_cons_cases {result : Except LoadError (List TypeId)}
    (h : definitions.buildEach heap registry (declaration :: declarations) w = (result, w')) :
    (∃ e, definitions.buildOne heap registry declaration w = (.error e, w') ∧
        result = .error e) ∨
      ∃ t w₁ others, definitions.buildOne heap registry declaration w = (.ok t, w₁) ∧
        definitions.buildEach heap registry declarations w₁ = (others, w') ∧
        result = others.map (t :: ·) := by
  unfold buildEach at h
  split at h
  · next e w₁ hfirst =>
    obtain ⟨rfl, rfl⟩ := Prod.mk.inj h
    exact Or.inl ⟨e, hfirst, rfl⟩
  · next t w₁ hfirst =>
    split at h
    · next e w₂ hrest =>
      obtain ⟨rfl, rfl⟩ := Prod.mk.inj h
      exact Or.inr ⟨t, w₁, _, hfirst, hrest, rfl⟩
    · next types w₂ hrest =>
      obtain ⟨rfl, rfl⟩ := Prod.mk.inj h
      exact Or.inr ⟨t, w₁, _, hfirst, hrest, rfl⟩

/-- A declaration that can be built has a request, which is built. -/
theorem buildOne_eq_ok {t : TypeId}
    (h : definitions.buildOne heap registry declaration w = (.ok t, w')) :
    ∃ request, definitions.request declaration registry = .ok request ∧
      w.build heap registry request = (.ok t, w') := by
  rcases buildOne_cases h with ⟨e, -, herror, -⟩ | ⟨request, built, hrequest, hbuild, hresult⟩
  · exact absurd herror (by simp)
  cases built with
  | error e => exact absurd hresult (by simp [Except.mapError])
  | ok u =>
    obtain rfl := Except.ok.inj hresult
    exact ⟨request, hrequest, hbuild⟩

/-- Declarations that can be built are built one after the other. -/
theorem buildEach_cons_eq_ok {types : List TypeId}
    (h : definitions.buildEach heap registry (declaration :: declarations) w = (.ok types, w')) :
    ∃ t w₁ more, definitions.buildOne heap registry declaration w = (.ok t, w₁) ∧
      definitions.buildEach heap registry declarations w₁ = (.ok more, w') ∧
      types = t :: more := by
  rcases buildEach_cons_cases h with ⟨e, -, herror⟩ | ⟨t, w₁, others, hfirst, hrest, hresult⟩
  · exact absurd herror (by simp)
  cases others with
  | error e => exact absurd hresult (by simp [Except.map])
  | ok more => exact ⟨t, w₁, more, hfirst, hrest, Except.ok.inj hresult⟩

/-- A declaration adds types to the registry and nothing else. -/
theorem buildOne_later {result : Except LoadError TypeId} (halive : w.HasRegistry registry)
    (h : definitions.buildOne heap registry declaration w = (result, w')) :
    Later w w' ∧ w'.HasRegistry registry := by
  rcases buildOne_cases h with ⟨e, -, -, rfl⟩ | ⟨request, built, -, hbuild, -⟩
  · exact ⟨Later.refl _, halive⟩
  · exact later_build halive hbuild

theorem buildEach_later {result : Except LoadError (List TypeId)} (halive : w.HasRegistry registry)
    (h : definitions.buildEach heap registry declarations w = (result, w')) :
    Later w w' ∧ w'.HasRegistry registry := by
  induction declarations generalizing w result with
  | nil =>
    obtain ⟨-, rfl⟩ := Prod.mk.inj h
    exact ⟨Later.refl _, halive⟩
  | cons declaration rest ih =>
    rcases buildEach_cons_cases h with ⟨e, hfirst, -⟩ | ⟨t, w₁, others, hfirst, hrest, -⟩
    · exact buildOne_later halive hfirst
    · obtain ⟨hlater, halive₁⟩ := buildOne_later halive hfirst
      obtain ⟨hlater', halive'⟩ := ih halive₁ hrest
      exact ⟨hlater.trans hlater', halive'⟩

/-- A declaration keeps a registry closed, also when it fails. -/
theorem buildOne_closed {result : Except LoadError TypeId} (halive : w.HasRegistry registry)
    (hclosed : w.Closed registry)
    (h : definitions.buildOne heap registry declaration w = (result, w')) :
    w'.Closed registry := by
  rcases buildOne_cases h with ⟨e, -, -, rfl⟩ | ⟨request, built, hrequest, hbuild, -⟩
  · exact hclosed
  · obtain ⟨-, -, hextend, hprops⟩ := request_eq_ok hrequest
    have hkept : (w.build heap registry request).2.Closed registry :=
      buildWithin_closed [] request w hextend hprops halive hclosed
    rwa [hbuild] at hkept

/-- Declarations keep a registry closed, also when one of them fails. -/
theorem buildEach_closed {result : Except LoadError (List TypeId)} (halive : w.HasRegistry registry)
    (hclosed : w.Closed registry)
    (h : definitions.buildEach heap registry declarations w = (result, w')) :
    w'.Closed registry := by
  induction declarations generalizing w result with
  | nil =>
    obtain ⟨-, rfl⟩ := Prod.mk.inj h
    exact hclosed
  | cons declaration rest ih =>
    rcases buildEach_cons_cases h with ⟨e, hfirst, -⟩ | ⟨t, w₁, others, hfirst, hrest, -⟩
    · exact buildOne_closed halive hclosed hfirst
    · exact ih (buildOne_later halive hfirst).2 (buildOne_closed halive hclosed hfirst) hrest

/-- A declaration that can be built is registered under its name. -/
theorem buildOne_registered {t : TypeId} (halive : w.HasRegistry registry)
    (h : definitions.buildOne heap registry declaration w = (.ok t, w')) :
    w'.lookup registry declaration.name = some t := by
  obtain ⟨request, hrequest, hbuild⟩ := buildOne_eq_ok h
  rw [← (request_eq_ok hrequest).1]
  exact lookup_buildWithin halive hbuild

/-- The types that declarations give are registered under the declared names. -/
theorem buildEach_registered {types : List TypeId} (halive : w.HasRegistry registry)
    (h : definitions.buildEach heap registry declarations w = (.ok types, w')) :
    List.Forall₂ (fun declaration t ↦ w'.lookup registry declaration.name = some t) declarations
      types := by
  induction declarations generalizing w types with
  | nil =>
    obtain ⟨htypes, -⟩ := Prod.mk.inj h
    obtain rfl := Except.ok.inj htypes
    exact .nil
  | cons declaration rest ih =>
    obtain ⟨t, w₁, others, hfirst, hrest, rfl⟩ := buildEach_cons_eq_ok h
    have halive₁ := (buildOne_later halive hfirst).2
    obtain ⟨hlater, halive'⟩ := buildEach_later halive₁ hrest
    exact .cons (hlater.lookup halive' (buildOne_registered halive hfirst)) (ih halive₁ hrest)

section Errors

variable {held : SchemaId → Prop} {e : LoadError} (hdescends : heap.Descends held)
  (hheld : ∀ name id, definitions.schemas.lookup? name = some id → held id)

include hdescends hheld

theorem buildOne_error (halive : w.HasRegistry registry)
    (h : definitions.buildOne heap registry declaration w = (.error e, w')) :
    DeclarationFault e := by
  rcases buildOne_cases h with ⟨e', hrequest, herror, -⟩ |
    ⟨request, built, hrequest, hbuild, hresult⟩
  · obtain rfl := Except.error.inj herror
    exact request_eq_error hrequest
  · cases built with
    | ok t => exact absurd hresult (by simp [Except.mapError])
    | error e' =>
      obtain rfl := Except.error.inj hresult
      obtain ⟨-, hschema, -, -⟩ := request_eq_ok hrequest
      have habove : ∀ schema ∈ Lineage.schemas [], request.schema < schema :=
        fun schema hschema ↦ absurd hschema List.not_mem_nil
      rcases buildWithin_error hdescends [] request w (hheld _ _ hschema) habove halive hbuild with
        ⟨option, rfl⟩ | ⟨kind, rfl⟩
      · exact .missingOption option
      · exact .unknownPrimitiveKind kind

theorem buildEach_error (halive : w.HasRegistry registry)
    (h : definitions.buildEach heap registry declarations w = (.error e, w')) :
    DeclarationFault e := by
  induction declarations generalizing w with
  | nil => exact absurd h (by simp [buildEach])
  | cons declaration rest ih =>
    rcases buildEach_cons_cases h with ⟨e', hfirst, herror⟩ |
      ⟨t, w₁, others, hfirst, hrest, hresult⟩
    · obtain rfl := Except.error.inj herror
      exact buildOne_error hdescends hheld halive hfirst
    · cases others with
      | ok types => exact absurd hresult (by simp [Except.map])
      | error e' =>
        obtain rfl := Except.error.inj hresult
        exact ih (buildOne_later halive hfirst).2 hrest

end Errors

end Definitions

end DocumentTypes

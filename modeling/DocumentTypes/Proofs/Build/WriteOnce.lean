import DocumentTypes.Proofs.Build.Provenance

/-!
Registries that are written once. Whatever is done through the handles of a registry, by builds and
by registrations (`RegistryUse`), and whatever else happens in between (`History`), the names that
it held stay in front of the new ones and keep their types.

Fields that are recorded as known, as references, as the type itself, or as overrides that are fixed
or resolved by the registry (`FixedLayer`) therefore do not change once they can be evaluated
(`evaluateOnto_of_fixed`): what was found under a name is found there later. All layers of a type
that a build with such overrides generates are of this kind, also when the build fails after the
type has been registered (`fixed_of_newly_registered`).
-/

set_option autoImplicit false

namespace DocumentTypes

variable {P : Producers} {σ τ : Type} {heap : SchemaHeap} {registry : RegistryId}
  {request : BuildRequest P}

/-! ### The uses of a registry -/

/-- What can be done through a handle of a registry. -/
inductive RegistryUse (P : Producers) where
  | build (heap : SchemaHeap) (request : BuildRequest P)
  | register (name : String) (type : TypeId)

namespace RegistryUse

/-- Only a type that exists can be registered. -/
def Exists (w : World P) : RegistryUse P → Prop
  | build _ _ => True
  | register _ type => type < w.nextType

/-- The type that is built or registered, and the world afterwards. -/
def run (registry : RegistryId) (w : World P) : RegistryUse P → Except BuildError TypeId × World P
  | build heap request => w.build heap registry request
  | register name type =>
    match w.register registry name type with
    | .error e => (.error e, w)
    | .ok w' => (.ok type, w')

theorem run_register_of_error {w : World P} {name : String} {t : TypeId} {e : BuildError}
    (h : w.register registry name t = .error e) :
    (register name t).run registry w = (.error e, w) := by
  simp only [run, h]

theorem run_register_of_ok {w w' : World P} {name : String} {t : TypeId}
    (h : w.register registry name t = .ok w') :
    (register name t).run registry w = (.ok t, w') := by
  simp only [run, h]

end RegistryUse

open World

/-- The worlds that are reached by using the registry while it is held, with any other changes of
the world in between. -/
inductive History (registry : RegistryId) (w : World P) : World P → Prop
  | start : History registry w w
  | use {w₁ : World P} (h : History registry w w₁) (hheld : w₁.HasRegistry registry)
      (use : RegistryUse P) (hexists : use.Exists w₁) : History registry w (use.run registry w₁).2
  | other {w₁ w₂ : World P} (h : History registry w w₁) (hstep : Step w₁ w₂) :
      History registry w w₂

namespace World

variable {w w' : World P} {name : String} {t : TypeId}

/-- A registration is refused exactly for a name that is in use. -/
theorem register_eq_error_iff {e : BuildError} :
    w.register registry name t = .error e ↔
      name ∈ (w.registryAt registry).keys ∧ e = .duplicateName name := by
  unfold World.register Registry.register
  by_cases hused : name ∈ (w.registryAt registry).keys
  · have hcontains : (w.registryAt registry).contains name = true :=
      List.contains_iff_mem.mpr hused
    simp only [hcontains, if_true, hused, true_and, Except.error.injEq]
    exact eq_comm
  · have hcontains : ¬ (w.registryAt registry).contains name = true :=
      fun h ↦ hused (List.contains_iff_mem.mp h)
    simp only [if_neg hcontains, hused, false_and, reduceCtorEq]

/-- A registration that is refused changes nothing. -/
theorem run_register_eq_error {e : BuildError}
    (h : ((RegistryUse.register name t).run registry w).1 = .error e) :
    ((RegistryUse.register name t).run registry w).2 = w ∧
      name ∈ (w.registryAt registry).keys ∧ e = .duplicateName name := by
  cases hregister : w.register registry name t with
  | error e' =>
    rw [RegistryUse.run_register_of_error hregister] at h ⊢
    obtain rfl := Except.error.inj h
    exact ⟨rfl, register_eq_error_iff.mp hregister⟩
  | ok w' =>
    rw [RegistryUse.run_register_of_ok hregister] at h
    exact absurd h (by simp)

/-- A use of a registry that is held leads to a later world. -/
theorem later_use (hheld : w.HasRegistry registry) (use : RegistryUse P)
    (hexists : use.Exists w) : Later w (use.run registry w).2 := by
  cases use with
  | build heap request => exact (later_build hheld rfl).1
  | register name t =>
    cases hregister : w.register registry name t with
    | error e =>
      rw [RegistryUse.run_register_of_error hregister]
      exact Later.refl _
    | ok w' =>
      rw [RegistryUse.run_register_of_ok hregister]
      exact Relation.ReflTransGen.single (.register hheld hexists hregister)

end World

theorem History.later {w w' : World P} (h : History registry w w') : Later w w' := by
  induction h with
  | start => exact Later.refl _
  | use _ hheld use hexists ih => exact ih.trans (later_use hheld use hexists)
  | other _ hstep ih => exact ih.tail hstep

/-! ### Fixed layers -/

/-- A fixed map, or type expressions that the registry resolves. -/
inductive FixedSource (registry : RegistryId) : FieldSource (DeferredMap P) → Prop
  | ready (fields : FieldMap) : FixedSource registry (.ready fields)
  | typeMap (entries : List (String × TypeExpr)) (typeName : String) :
      FixedSource registry (.deferred (.typeMap entries registry typeName))

/-- A layer that no producer from outside decides on. -/
inductive FixedLayer (registry : RegistryId) :
    FieldLayer (DeferredField P) (DeferredMap P) → Prop
  | field (field : String) (spec : FieldSpec) : FixedLayer registry (.field field spec)
  | reference (field name typeName : String) :
      FixedLayer registry (.deferred field (.reference registry name typeName))
  | itself (field : String) (isArray : Bool) (typeName : String) :
      FixedLayer registry (.deferred field (.itself isArray typeName))
  | merge {source : FieldSource (DeferredMap P)} (hsource : FixedSource registry source) :
      FixedLayer registry (.merge source)

namespace World

variable {w w' : World P} {name : String} {t : TypeId}

theorem Records.fixed {schema : SchemaId} {path : String × PathDescriptor SchemaLink}
    {layer : FieldLayer (DeferredField P) (DeferredMap P)}
    (h : w.Records registry name schema path layer) : FixedLayer registry layer := by
  cases h with
  | reference field typeName isArray => exact .reference field typeName name
  | primitive field isArray hscalar => exact .field field _
  | itself field isArray hself => exact .itself field isArray name
  | nested field isArray hother hlookup => exact .field field _

theorem Fulfils.fixed (h : w.Fulfils heap registry request t)
    (hextend : FixedSource registry request.extend)
    (hprops : FixedSource registry request.props) :
    ∀ layer ∈ (w.typeAt t).fields, FixedLayer registry layer := by
  obtain ⟨layers, htype, hlayers⟩ := h.recorded
  intro layer hlayer
  rw [htype] at hlayer
  rcases BuildRequest.mem_fields_type.mp hlayer with hgenerated | rfl | rfl
  · obtain ⟨path, -, hrecords⟩ := exists_partner_of_mem hlayers.flip hgenerated
    exact hrecords.fixed
  · exact .merge hextend
  · exact .merge hprops

section Keeps

variable (hkeeps : ∀ name t, w.lookup registry name = some t → w'.lookup registry name = some t)

include hkeeps

theorem resolve_of_keeps {expr : TypeExpr} {typeName : String} {type : TypeRef}
    (h : w.resolve registry typeName expr = .ok type) (typeName' : String) :
    w'.resolve registry typeName' expr = .ok type := by
  induction expr generalizing type with
  | scalar s => exact h
  | list element ih =>
    unfold resolve at h ⊢
    cases helement : w.resolve registry typeName element with
    | error e => exact absurd h (by simp [helement, Except.map])
    | ok inner => rwa [ih helement, ← helement]
  | named name =>
    unfold resolve at h ⊢
    cases hlookup : w.lookup registry name with
    | none => exact absurd h (by simp [hlookup])
    | some t =>
      rw [hlookup] at h
      rwa [hkeeps name t hlookup]

theorem resolveAll_of_keeps {entries : List (String × TypeExpr)} {typeName : String}
    {pairs : List (String × FieldSpec)} (h : w.resolveAll registry typeName entries = .ok pairs) :
    w'.resolveAll registry typeName entries = .ok pairs := by
  induction entries generalizing pairs with
  | nil => exact h
  | cons entry rest ih =>
    obtain ⟨field, expr⟩ := entry
    unfold resolveAll at h ⊢
    cases hexpr : w.resolve registry typeName expr with
    | error e => exact absurd h (by simp [hexpr])
    | ok type =>
      rw [hexpr] at h
      rw [resolve_of_keeps hkeeps hexpr typeName]
      cases hrest : w.resolveAll registry typeName rest with
      | error e => exact absurd h (by simp [hrest, Except.map])
      | ok more => rwa [ih hrest, ← hrest]

/-- Fixed overrides that give fields give the same fields wherever the registry has kept its
types. -/
theorem resolve_of_fixed {source : FieldSource (DeferredMap P)}
    (hsource : FixedSource registry source) (outside : Outside P σ) (outside' : Outside P τ)
    (owner : Option TypeId) {s s₁ : σ} {fields : FieldMap}
    (h : source.resolve (w.runner outside owner) s = (.ok fields, s₁)) (s' : τ) :
    source.resolve (w'.runner outside' owner) s' = (.ok fields, s') := by
  cases hsource with
  | ready ready =>
    obtain ⟨hfields, -⟩ := Prod.mk.inj h
    exact Prod.ext hfields rfl
  | typeMap entries typeName =>
    obtain ⟨hfields, -⟩ := Prod.mk.inj h
    cases hentries : w.resolveAll registry typeName entries with
    | error e => exact absurd hfields (by simp [hentries, Except.map])
    | ok pairs =>
      rw [hentries] at hfields
      refine Prod.ext ?_ rfl
      show (w'.resolveAll registry typeName entries).map OrderedMap.ofList = _
      rw [resolveAll_of_keeps hkeeps hentries, hfields]

/-- Fixed layers that are evaluated to fields are evaluated to the same fields wherever the registry
has kept its types, whatever producers from outside do. -/
theorem evaluateOnto_of_fixed {layers : FieldThunk (DeferredField P) (DeferredMap P)}
    (hlayers : ∀ layer ∈ layers, FixedLayer registry layer) (outside : Outside P σ)
    (outside' : Outside P τ) (owner : Option TypeId) {fields all : FieldMap} {s s₁ : σ}
    (h : FieldThunk.evaluateOnto (w.runner outside owner) fields layers s = (.ok all, s₁))
    (s' : τ) :
    FieldThunk.evaluateOnto (w'.runner outside' owner) fields layers s' = (.ok all, s') := by
  induction layers generalizing fields s with
  | nil =>
    obtain ⟨hall, -⟩ := Prod.mk.inj h
    exact Prod.ext hall rfl
  | cons layer rest ih =>
    obtain ⟨hlayer, hrest⟩ := List.forall_mem_cons.mp hlayers
    cases hlayer with
    | field field spec => exact ih hrest h
    | reference field name typeName =>
      simp only [FieldThunk.evaluateOnto, runner, produceField] at h ⊢
      cases hlookup : w.lookup registry name with
      | none => exact absurd h (by simp [hlookup])
      | some t =>
        rw [hlookup] at h
        rw [hkeeps name t hlookup]
        exact ih hrest h
    | itself field isArray typeName =>
      simp only [FieldThunk.evaluateOnto, runner, produceField] at h ⊢
      cases owner with
      | none => exact absurd h (by simp)
      | some t => exact ih hrest h
    | @merge source hsource =>
      simp only [FieldThunk.evaluateOnto] at h ⊢
      rcases hresolve : source.resolve (w.runner outside owner) s with ⟨e | more, s₂⟩
      · rw [hresolve] at h
        exact absurd h (by simp)
      · rw [hresolve] at h
        rw [resolve_of_fixed hkeeps hsource outside outside' owner hresolve]
        exact ih hrest h

end Keeps

/-- A type that a build registers has fixed layers when the overrides are fixed, also when the build
fails. -/
theorem fixed_of_newly_registered (hheld : w.HasRegistry registry)
    (hextend : FixedSource registry request.extend) (hprops : FixedSource registry request.props)
    (hnew : w.lookup registry name = none)
    (h : (w.build heap registry request).2.lookup registry name = some t) :
    t < (w.build heap registry request).2.nextType ∧
      ∀ layer ∈ ((w.build heap registry request).2.typeAt t).fields, FixedLayer registry layer := by
  rcases Call.generated_of_lookup ⟨[], request, w⟩ hheld h with hbefore | ⟨schema, hgenerated⟩
  · exact absurd (hnew.symm.trans hbefore) (by simp)
  obtain ⟨r, -, -, -, hoverrides, hfulfils⟩ := hgenerated.fulfils hheld rfl
  refine ⟨hfulfils.lt_nextType, ?_⟩
  rcases hoverrides with rfl | ⟨hnoExtend, hnoProps⟩
  · exact hfulfils.fixed hextend hprops
  · exact hfulfils.fixed (hnoExtend ▸ .ready ∅) (hnoProps ▸ .ready ∅)

/-- The type was registered by a build with fixed overrides, at some point before. -/
def GeneratedBefore (w : World P) (registry : RegistryId) (t : TypeId) : Prop :=
  ∃ (w₀ : World P) (heap : SchemaHeap) (request : BuildRequest P) (name : String),
    w₀.HasRegistry registry ∧ FixedSource registry request.extend ∧
      FixedSource registry request.props ∧ w₀.lookup registry name = none ∧
      (w₀.build heap registry request).2.lookup registry name = some t ∧
      History registry (w₀.build heap registry request).2 w

theorem GeneratedBefore.fixed (h : w.GeneratedBefore registry t) :
    t < w.nextType ∧ ∀ layer ∈ (w.typeAt t).fields, FixedLayer registry layer := by
  obtain ⟨w₀, heap, request, name, hheld, hextend, hprops, hnew, hregistered, hrun⟩ := h
  obtain ⟨hlt, hlayers⟩ := fixed_of_newly_registered hheld hextend hprops hnew hregistered
  refine ⟨hlt.trans_le hrun.later.nextType_le, ?_⟩
  rwa [hrun.later.typeAt hlt]

/-- Once the fields of such a type can be evaluated they stay as they are. -/
theorem GeneratedBefore.fields_eq (h : w.GeneratedBefore registry t) (hlater : Later w w')
    (hheld : w'.HasRegistry registry) (outside : Outside P σ) (outside' : Outside P τ) {s : σ}
    {fields : FieldMap} (hfields : (w.fields outside t s).1 = .ok fields) (s' : τ) :
    w'.fields outside' t s' = (.ok fields, s') := by
  obtain ⟨hlt, hlayers⟩ := h.fixed
  have hkeeps : ∀ name t, w.lookup registry name = some t → w'.lookup registry name = some t :=
    fun name t hlookup ↦ hlater.lookup hheld hlookup
  unfold World.fields FieldThunk.evaluate
  rw [hlater.typeAt hlt]
  exact evaluateOnto_of_fixed hkeeps hlayers outside outside' (some t) (Prod.ext hfields rfl) s'

end World

/-- A registry is written once, and fields are stable. From any state to any later one in which the
registry is held, its names stay in front and in order, they keep their types, and a registration
that is refused, for a name in use, changes nothing. A type that was generated with fixed overrides
keeps its fields from when they can first be evaluated, whatever producers from outside do. -/
theorem registry_write_once {w w' : World P} (hrun : History registry w w')
    (hheld : w'.HasRegistry registry) :
    (w.registryAt registry).keys <+: (w'.registryAt registry).keys ∧
    (∀ name t, w.lookup registry name = some t → w'.lookup registry name = some t) ∧
    (∀ name t e, ((RegistryUse.register name t).run registry w').1 = .error e →
      ((RegistryUse.register name t).run registry w').2 = w' ∧
        name ∈ (w'.registryAt registry).keys ∧ e = .duplicateName name) ∧
    ∀ t, w.GeneratedBefore registry t →
      ∀ (σ τ : Type) (outside : Outside P σ) (outside' : Outside P τ) (s : σ) (s' : τ) fields,
        (w.fields outside t s).1 = .ok fields → w'.fields outside' t s' = (.ok fields, s') := by
  have hlater := hrun.later
  refine ⟨(hlater.prefix_entries hheld).map Prod.fst, fun name t hlookup ↦ ?_,
    fun name t e hrefused ↦ run_register_eq_error hrefused, ?_⟩
  · exact hlater.lookup hheld hlookup
  · intro t hgenerated σ τ outside outside' s s' fields hfields
    exact hgenerated.fields_eq hlater hheld outside outside' hfields s'

/-- The persons that own animals, who live in a city. -/
def personRequest : BuildRequest .none :=
  { animalRequest with name := "Person", schema := 1, extend := .ready ∅ }

/-- The world with the animals. -/
def animalWorld : World .none :=
  ((RegistryUse.build animalHeap animalRequest).run 0 newWorld).2

/-- The world with the animals and the persons. -/
def personWorld : World .none :=
  ((RegistryUse.build animalHeap personRequest).run 0 animalWorld).2

theorem lookup_animal : personWorld.lookup 0 "Animal" = some 1 := by decide +kernel

/-- The persons can be registered as owners, too. -/
theorem history_owner :
    History 0 personWorld ((RegistryUse.register "Owner" 2).run 0 personWorld).2 ∧
      ((RegistryUse.register "Owner" 2).run 0 personWorld).2.HasRegistry 0 := by
  have hexists : 2 < personWorld.nextType := by decide +kernel
  exact ⟨.use .start (by decide +kernel) (.register "Owner" 2) hexists, by decide +kernel⟩

/-- The animals can be evaluated once there are persons, and keep their fields when the persons are
registered as owners, too. -/
theorem registry_write_once_animal :
    ∃ w' : World .none, History 0 personWorld w' ∧ w'.HasRegistry 0 ∧
      personWorld.GeneratedBefore 0 1 ∧
      (personWorld.registryAt 0).keys <+: (w'.registryAt 0).keys ∧
      w'.lookup 0 "Animal" = some 1 ∧
      ((RegistryUse.register "Person" 0).run 0 w').2 = w' ∧
      ∃ fields, (personWorld.fields Outside.none 1 ()).1 = .ok fields ∧
        w'.fields Outside.none 1 () = (.ok fields, ()) := by
  obtain ⟨hrun, hheld⟩ := history_owner
  have hgenerated : personWorld.GeneratedBefore 0 1 :=
    ⟨newWorld, animalHeap, animalRequest, "Animal", by decide, .ready _, .ready _, rfl,
      by decide +kernel, .use .start (by decide +kernel) (.build animalHeap personRequest) trivial⟩
  obtain ⟨fields, hnow⟩ : ∃ fields, (personWorld.fields Outside.none 1 ()).1 = .ok fields :=
    ⟨_, by with_unfolding_all rfl⟩
  obtain ⟨hfront, hkeeps, hrefused, hfields⟩ := registry_write_once hrun hheld
  exact ⟨_, hrun, hheld, hgenerated, hfront, hkeeps "Animal" 1 lookup_animal,
    (hrefused "Person" 0 (.duplicateName "Person") (by decide +kernel)).1, fields, hnow,
    hfields 1 hgenerated Unit Unit Outside.none Outside.none () () fields hnow⟩

end DocumentTypes

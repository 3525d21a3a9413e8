import DocumentTypes.Proofs.Build.ClosedRegistry
import DocumentTypes.Proofs.Build.WriteOnce

/-!
Registries that are built up from nothing, by builds whose overrides lead to no types but those of
the registry (`BuiltUp`). The overrides may be maps, type expressions that the registry resolves, or
producers from outside that look their types up there (`EnclosedSource`). Every type of such a
registry bears the name that it is registered under, and each of its layers leads to types of the
registry (`BuiltUp.enclosed`): a build that fails leaves complete types behind, as the parent that
is missing is in none of their layers, and a reference to the type itself leads to a type that has
been registered in the meantime.
-/

set_option autoImplicit false

namespace DocumentTypes

variable {P : Producers} {σ : Type} {registry : RegistryId}

/-- The layers are evaluated one after the other. -/
theorem FieldThunk.evaluateOnto_append {F M : Type} (run : Runner F M σ) (fields : FieldMap)
    (first rest : FieldThunk F M) (s : σ) :
    evaluateOnto run fields (first ++ rest) s =
      match evaluateOnto run fields first s with
      | (.error e, s) => (.error e, s)
      | (.ok fields, s) => evaluateOnto run fields rest s := by
  induction first generalizing fields s with
  | nil => rfl
  | cons layer first ih =>
    cases layer with
    | field name spec => exact ih (fields.insert name spec) s
    | deferred name producer =>
      simp only [List.cons_append, evaluateOnto]
      rcases run.field producer s with ⟨e | spec, s⟩
      · rfl
      · exact ih (fields.insert name spec) s
    | merge source =>
      simp only [List.cons_append, evaluateOnto]
      rcases source.resolve run s with ⟨e | more, s⟩
      · rfl
      · exact ih (fields.insertAll more.entries) s

namespace World

variable {outside : Outside P σ} {w w' : World P} {name : String} {t : TypeId}

/-- Overrides that lead to no types but those of the registry, now and for as long as it is
held. -/
inductive EnclosedSource (outside : Outside P σ) (w : World P) (registry : RegistryId) :
    FieldSource (DeferredMap P) → Prop
  | ready {fields : FieldMap} (h : w.ClosedFields registry fields) :
      EnclosedSource outside w registry (.ready fields)
  | typeMap (entries : List (String × TypeExpr)) (typeName : String) :
      EnclosedSource outside w registry (.deferred (.typeMap entries registry typeName))
  | custom {producer : P.Map}
      (h : ∀ w', Later w w' → w'.HasRegistry registry → ∀ s fields s',
        outside.fieldMap producer w' s = (.ok fields, s') → w'.ClosedFields registry fields) :
      EnclosedSource outside w registry (.deferred (.custom producer))

/-- A layer that leads to types of the registry. -/
inductive EnclosedLayer (outside : Outside P σ) (w : World P) (registry : RegistryId)
    (name : String) : FieldLayer (DeferredField P) (DeferredMap P) → Prop
  | closed {layer : FieldLayer (DeferredField P) (DeferredMap P)}
      (h : w.ClosedLayer registry name layer) : EnclosedLayer outside w registry name layer
  | merge {source : FieldSource (DeferredMap P)}
      (hsource : EnclosedSource outside w registry source) :
      EnclosedLayer outside w registry name (.merge source)

/-- The type bears the name, and its layers lead to types of the registry. -/
structure EnclosedType (outside : Outside P σ) (w : World P) (registry : RegistryId) (name : String)
    (t : TypeId) : Prop where
  lt_nextType : t < w.nextType
  name_eq : (w.typeAt t).name = name
  layers : ∀ layer ∈ (w.typeAt t).fields, EnclosedLayer outside w registry name layer

theorem EnclosedSource.later {source : FieldSource (DeferredMap P)}
    (h : EnclosedSource outside w registry source) (hlater : Later w w')
    (hheld : w'.HasRegistry registry) : EnclosedSource outside w' registry source := by
  cases h with
  | ready h => exact .ready fun u hu ↦ (h u hu).later hlater hheld
  | typeMap entries typeName => exact .typeMap entries typeName
  | custom h => exact .custom fun w'' hlater' ↦ h w'' (hlater.trans hlater')

theorem EnclosedType.later (h : EnclosedType outside w registry name t) (hlater : Later w w')
    (hheld : w'.HasRegistry registry) : EnclosedType outside w' registry name t where
  lt_nextType := h.lt_nextType.trans_le hlater.nextType_le
  name_eq := by rw [hlater.typeAt h.lt_nextType, h.name_eq]
  layers := by
    rw [hlater.typeAt h.lt_nextType]
    intro layer hlayer
    cases h.layers layer hlayer with
    | closed h => exact .closed (h.later hlater hheld)
    | merge hsource => exact .merge (hsource.later hlater hheld)

/-- A type that fulfils a request with enclosed overrides is enclosed. -/
theorem Fulfils.enclosed {heap : SchemaHeap} {request : BuildRequest P}
    (h : w.Fulfils heap registry request t)
    (hextend : EnclosedSource outside w registry request.extend)
    (hprops : EnclosedSource outside w registry request.props) :
    EnclosedType outside w registry request.name t := by
  obtain ⟨layers, htype, hlayers⟩ := h.recorded
  refine ⟨h.lt_nextType, h.name_eq, ?_⟩
  rw [htype]
  intro layer hlayer
  rcases BuildRequest.mem_fields_type.mp hlayer with hgenerated | rfl | rfl
  · obtain ⟨path, -, hrecords⟩ := exists_partner_of_mem hlayers.flip hgenerated
    exact .closed hrecords.closed
  · exact .merge hextend
  · exact .merge hprops

/-! ### Evaluation -/

theorem EnclosedSource.closedFields {source : FieldSource (DeferredMap P)}
    (h : EnclosedSource outside w registry source) (hheld : w.HasRegistry registry)
    {owner : Option TypeId} {s s' : σ} {fields : FieldMap}
    (hresolve : source.resolve (w.runner outside owner) s = (.ok fields, s')) :
    w.ClosedFields registry fields := by
  cases h with
  | ready h =>
    obtain ⟨hfields, -⟩ := Prod.mk.inj hresolve
    rwa [← Except.ok.inj hfields]
  | typeMap entries typeName =>
    obtain ⟨hfields, -⟩ := Prod.mk.inj hresolve
    rcases resolveAll_cases w registry typeName entries with ⟨e, herror, -⟩ | ⟨pairs, hok, hpairs⟩
    · rw [herror] at hfields
      exact absurd hfields (by simp [Except.map])
    · rw [hok] at hfields
      rw [← Except.ok.inj hfields]
      exact closedFields_empty.insertAll hpairs
  | custom h => exact h w (Later.refl w) hheld s fields s' hresolve

/-- Enclosed layers that are evaluated to fields give types of the registry only. -/
theorem closedFields_of_evaluateOnto (hheld : w.HasRegistry registry)
    (hself : w.IsRegistered registry t) {layers : FieldThunk (DeferredField P) (DeferredMap P)}
    (hlayers : ∀ layer ∈ layers, EnclosedLayer outside w registry name layer)
    {fields all : FieldMap} (hfields : w.ClosedFields registry fields) {s s' : σ}
    (h : FieldThunk.evaluateOnto (w.runner outside (some t)) fields layers s = (.ok all, s')) :
    w.ClosedFields registry all := by
  induction layers generalizing fields s with
  | nil =>
    obtain ⟨hall, -⟩ := Prod.mk.inj h
    rwa [← Except.ok.inj hall]
  | cons layer rest ih =>
    obtain ⟨hlayer, hrest⟩ := List.forall_mem_cons.mp hlayers
    rw [← List.singleton_append, FieldThunk.evaluateOnto_append] at h
    cases hlayer with
    | closed hclosed =>
      rcases evaluateOnto_cases outside hself (List.forall_mem_singleton.mpr hclosed) hfields s with
        ⟨e, herror, -⟩ | ⟨more, hok, hmore⟩
      · rw [herror] at h
        exact absurd h (by simp)
      · rw [hok] at h
        exact ih hrest hmore h
    | @merge source hsource =>
      simp only [FieldThunk.evaluateOnto] at h
      rcases hresolve : source.resolve (w.runner outside (some t)) s with ⟨e | more, s₁⟩
      · rw [hresolve] at h
        exact absurd h (by simp)
      · rw [hresolve] at h
        have hmore := hsource.closedFields hheld hresolve
        refine ih hrest (hfields.insertAll fun pair hpair u hu ↦ hmore u ?_) h
        exact mem_namedTypes_iff.mpr ⟨pair.1, pair.2, OrderedMap.mem_entries_iff.mp hpair, hu⟩

end World

open World

/-- The registry was empty, and has only been changed by builds, with overrides that are enclosed
when the build starts. -/
inductive BuiltUp (outside : Outside P σ) (registry : RegistryId) : World P → Prop
  | empty {w : World P} (hheld : w.HasRegistry registry) (hempty : w.registryAt registry = ∅) :
      BuiltUp outside registry w
  | build {w : World P} (h : BuiltUp outside registry w) (heap : SchemaHeap)
      (request : BuildRequest P) (hextend : EnclosedSource outside w registry request.extend)
      (hprops : EnclosedSource outside w registry request.props) :
      BuiltUp outside registry (w.build heap registry request).2
  | other {w w' : World P} (h : BuiltUp outside registry w) (hlater : Later w w')
      (hheld : w'.HasRegistry registry) (hsame : w'.registryAt registry = w.registryAt registry) :
      BuiltUp outside registry w'

namespace BuiltUp

variable {outside : Outside P σ} {w : World P}

theorem hasRegistry (h : BuiltUp outside registry w) : w.HasRegistry registry := by
  induction h with
  | empty hheld hempty => exact hheld
  | build _ heap request hextend hprops ih =>
    exact (later_build ih rfl).2
  | other _ hlater hheld hsame ih => exact hheld

/-- All registered types are enclosed. What is new after a build fulfils the request, or one that
has no overrides. -/
theorem enclosed (h : BuiltUp outside registry w) {name : String} {t : TypeId}
    (hlookup : w.lookup registry name = some t) : EnclosedType outside w registry name t := by
  induction h generalizing name t with
  | empty hheld hempty => exact absurd ((lookup_of_empty hempty name).symm.trans hlookup) (by simp)
  | @build w h heap request hextend hprops ih =>
    obtain ⟨hlater, hheld'⟩ : Later w (w.build heap registry request).2 ∧
        (w.build heap registry request).2.HasRegistry registry := later_build h.hasRegistry rfl
    rcases Call.generated_of_lookup ⟨[], request, w⟩ h.hasRegistry hlookup with
      hbefore | ⟨schema, hgenerated⟩
    · exact (ih hbefore).later hlater hheld'
    · obtain ⟨r, rfl, -, -, hoverrides, hfulfils⟩ := hgenerated.fulfils h.hasRegistry rfl
      rcases hoverrides with rfl | ⟨hnoExtend, hnoProps⟩
      · exact hfulfils.enclosed (hextend.later hlater hheld') (hprops.later hlater hheld')
      · exact hfulfils.enclosed (hnoExtend ▸ .ready closedFields_empty)
          (hnoProps ▸ .ready closedFields_empty)
  | other _ hlater hheld hsame ih =>
    rw [World.lookup, hsame] at hlookup
    exact (ih hlookup).later hlater hheld

end BuiltUp

/-- A registry that is built up from nothing is closed. Every type is registered under its own name,
and when its fields can be evaluated, the named types in them are those that the registry holds
under their names. -/
theorem registry_closed {outside : Outside P σ} {w : World P} (h : BuiltUp outside registry w)
    (name : String) (t : TypeId) (hlookup : w.lookup registry name = some t) :
    (w.typeAt t).name = name ∧
      ∀ s fields, (w.fields outside t s).1 = .ok fields →
        ∀ u ∈ namedTypes fields, w.lookup registry (w.typeAt u).name = some u := by
  have henclosed := h.enclosed hlookup
  refine ⟨henclosed.name_eq, fun s fields hfields u hu ↦ ?_⟩
  have hclosed : w.ClosedFields registry fields :=
    closedFields_of_evaluateOnto h.hasRegistry ⟨name, hlookup⟩ henclosed.layers closedFields_empty
      (Prod.ext hfields rfl)
  obtain ⟨other, hother⟩ := hclosed u hu
  rwa [(h.enclosed hother).name_eq]

/-- Animals have a home, which is a type of the registry, as are their owners. -/
theorem registry_closed_animal :
    BuiltUp Outside.none 0 personWorld ∧ personWorld.lookup 0 "Animal" = some 1 ∧
      (personWorld.typeAt 1).name = "Animal" ∧
      ∃ fields, (personWorld.fields Outside.none 1 ()).1 = .ok fields ∧ 2 ∈ namedTypes fields ∧
        personWorld.lookup 0 (personWorld.typeAt 2).name = some 2 := by
  have hnew : BuiltUp Outside.none 0 newWorld := .empty (by decide) rfl
  have hbuilt : BuiltUp Outside.none 0 personWorld :=
    (hnew.build animalHeap animalRequest (.ready fun u hu ↦ absurd hu List.not_mem_nil)
      (.ready closedFields_empty)).build animalHeap personRequest (.ready closedFields_empty)
      (.ready closedFields_empty)
  obtain ⟨hname, hclosed⟩ := registry_closed hbuilt "Animal" 1 lookup_animal
  obtain ⟨fields, hok, howner⟩ : ∃ fields, (personWorld.fields Outside.none 1 ()).1 = .ok fields ∧
      2 ∈ namedTypes fields :=
    ⟨.ofList [("name", .ofType (.scalar .id)), ("home", .ofType (.named 0)),
      ("young", .ofType (.list (.named 1))), ("owner", .ofType (.named 2))], by decide +kernel,
      by decide +kernel⟩
  exact ⟨hbuilt, lookup_animal, hname, fields, hok, howner, hclosed () fields hok 2 howner⟩

end DocumentTypes

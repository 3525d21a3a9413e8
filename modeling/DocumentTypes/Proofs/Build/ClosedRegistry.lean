import DocumentTypes.Proofs.Build.Recorded
import DocumentTypes.Proofs.OrderedMap.Related
import DocumentTypes.Traversal

/-!
Registries whose types refer to no types outside of them. A type that is registered under a name is
closed when it bears that name and each of its layers leads to types of the registry, now or when it
is evaluated (`World.ClosedType`), and the registry is closed when all its types are
(`World.Closed`). A construction from closed layers keeps a registry closed (`Closed.construct`),
and so does a whole build with closed overrides (`buildWithin_closed`). A type that is closed once
is closed for as long as its registry is held (`ClosedType.later`). The evaluation of its fields
leads to registered types, or fails with a name that is not registered (`ClosedType.fields_cases`).
-/

set_option autoImplicit false

namespace DocumentTypes

variable {P : Producers} {σ : Type} {registry : RegistryId}

/-- Overrides that are empty, or are type expressions that the registry resolves for the type
`name`. -/
def ClosedSource (registry : RegistryId) (name : String) (source : FieldSource (DeferredMap P)) :
    Prop :=
  source = .ready ∅ ∨ ∃ entries, source = .deferred (.typeMap entries registry name)

theorem mem_namedTypes_iff {fields : FieldMap} {t : TypeId} :
    t ∈ namedTypes fields ↔
      ∃ field spec, fields.lookup? field = some spec ∧ spec.type.named? = some t := by
  rw [namedTypes, List.mem_filterMap]
  constructor
  · rintro ⟨spec, hspec, hnamed⟩
    obtain ⟨field, hlookup⟩ := OrderedMap.mem_values_iff.mp hspec
    exact ⟨field, spec, hlookup, hnamed⟩
  · rintro ⟨field, spec, hlookup, hnamed⟩
    exact ⟨spec, OrderedMap.mem_values_iff.mpr ⟨field, hlookup⟩, hnamed⟩

@[simp] theorem TypeRef.named?_listIf (isList : Bool) (type : TypeRef) :
    (TypeRef.listIf isList type).named? = type.named? := by
  cases isList <;> rfl

namespace World

variable {w w' : World P} {name : String} {t : TypeId}

/-- The registry holds the type under some name. -/
def IsRegistered (w : World P) (registry : RegistryId) (t : TypeId) : Prop :=
  ∃ name, w.lookup registry name = some t

theorem IsRegistered.later (h : w.IsRegistered registry t) (hlater : Later w w')
    (halive : w'.HasRegistry registry) : w'.IsRegistered registry t := by
  obtain ⟨name, hname⟩ := h
  exact ⟨name, hlater.lookup halive hname⟩

/-- A type that the registry knows, if the field has a named type. -/
def ClosedSpec (w : World P) (registry : RegistryId) (spec : FieldSpec) : Prop :=
  ∀ u, spec.type.named? = some u → w.IsRegistered registry u

/-- A layer of the type `name` that leads to types of the registry: a field with such a type, a
reference or overrides that the registry resolves, or the type itself. -/
inductive ClosedLayer (w : World P) (registry : RegistryId) (name : String) :
    FieldLayer (DeferredField P) (DeferredMap P) → Prop
  | field (field : String) {spec : FieldSpec} (hspec : w.ClosedSpec registry spec) :
      ClosedLayer w registry name (.field field spec)
  | reference (field typeName : String) :
      ClosedLayer w registry name (.deferred field (.reference registry typeName name))
  | itself (field : String) (isArray : Bool) :
      ClosedLayer w registry name (.deferred field (.itself isArray name))
  | merge {source : FieldSource (DeferredMap P)} (hsource : ClosedSource registry name source) :
      ClosedLayer w registry name (.merge source)

/-- The type bears the name, and all its layers lead to types of the registry. -/
structure ClosedType (w : World P) (registry : RegistryId) (name : String) (t : TypeId) : Prop where
  lt_nextType : t < w.nextType
  name_eq : (w.typeAt t).name = name
  layers : ∀ layer ∈ (w.typeAt t).fields, w.ClosedLayer registry name layer

/-- All registered types are closed. -/
def Closed (w : World P) (registry : RegistryId) : Prop :=
  ∀ name t, w.lookup registry name = some t → w.ClosedType registry name t

theorem ClosedLayer.later {layer : FieldLayer (DeferredField P) (DeferredMap P)}
    (h : w.ClosedLayer registry name layer) (hlater : Later w w')
    (halive : w'.HasRegistry registry) : w'.ClosedLayer registry name layer := by
  cases h with
  | field field hspec => exact .field field fun u hu ↦ (hspec u hu).later hlater halive
  | reference field typeName => exact .reference field typeName
  | itself field isArray => exact .itself field isArray
  | merge hsource => exact .merge hsource

theorem ClosedType.later (h : w.ClosedType registry name t) (hlater : Later w w')
    (halive : w'.HasRegistry registry) : w'.ClosedType registry name t where
  lt_nextType := h.lt_nextType.trans_le hlater.nextType_le
  name_eq := by rw [hlater.typeAt h.lt_nextType, h.name_eq]
  layers := by
    rw [hlater.typeAt h.lt_nextType]
    exact fun layer hlayer ↦ (h.layers layer hlayer).later hlater halive

theorem closed_of_registryAt_eq_empty (hempty : w.registryAt registry = ∅) : w.Closed registry := by
  intro name t hlookup
  rw [lookup, hempty] at hlookup
  exact absurd hlookup (by simp)

/-! ### Building -/

/-- What a path of a schema becomes is closed. -/
theorem Records.closed {schema : SchemaId} {path : String × PathDescriptor SchemaLink}
    {layer : FieldLayer (DeferredField P) (DeferredMap P)}
    (h : w.Records registry name schema path layer) : w.ClosedLayer registry name layer := by
  cases h with
  | reference field typeName isArray => exact .reference field typeName
  | primitive field isArray hscalar =>
    refine .field field fun u hu ↦ ?_
    exact absurd hu (by simp [FieldSpec.ofType, TypeRef.named?])
  | itself field isArray hself => exact .itself field isArray
  | nested field isArray hother hlookup =>
    refine .field field fun u hu ↦ ?_
    obtain rfl : _ = u := by simpa [FieldSpec.ofType, TypeRef.named?] using hu
    exact ⟨_, hlookup⟩

/-- The construction of a type with closed layers keeps a registry closed. -/
theorem Closed.construct {type : GeneratedType P} (hclosed : w.Closed registry)
    (halive : w.HasRegistry registry)
    (hlayers : ∀ layer ∈ type.fields, w.ClosedLayer registry type.name layer)
    (h : w.construct registry type = (.ok t, w')) : w'.Closed registry := by
  have hlater := later_construct halive h
  have halive' := hasRegistry_construct halive h
  intro name u hlookup
  rw [lookup_construct halive h] at hlookup
  by_cases hname : name = type.name
  · rw [if_pos hname] at hlookup
    obtain rfl := Option.some.inj hlookup
    obtain ⟨hlt, htype⟩ := typeAt_construct h
    refine ⟨hlt, by rw [htype, hname], ?_⟩
    rw [htype, hname]
    exact fun layer hlayer ↦ (hlayers layer hlayer).later hlater halive'
  · rw [if_neg hname] at hlookup
    exact (hclosed name u hlookup).later hlater halive'

end World

open World

section Build

variable {heap : SchemaHeap}

/-- A build with closed overrides keeps a registry closed, also when it fails. -/
theorem buildWithin_closed (ancestors : Lineage) (request : BuildRequest P) (w : World P)
    (hextend : ClosedSource registry request.name request.extend)
    (hprops : ClosedSource registry request.name request.props) (halive : w.HasRegistry registry)
    (hclosed : w.Closed registry) :
    (buildWithin heap registry ancestors request w).2.Closed registry := by
  refine buildWithin_keeps (Q := fun r ↦ ClosedSource registry r.name r.extend ∧
    ClosedSource registry r.name r.props) (I := fun w ↦ w.Closed registry)
    (fun _ _ _ ↦ ⟨Or.inl rfl, Or.inl rfl⟩) (fun h hheld hw hlayers hconstruct ↦ ?_) ancestors
    request w ⟨hextend, hprops⟩ halive hclosed
  refine hw.construct hheld (fun layer hlayer ↦ ?_) hconstruct
  rcases BuildRequest.mem_fields_type.mp hlayer with hgenerated | rfl | rfl
  · obtain ⟨path, -, hpath⟩ := exists_partner_of_mem hlayers.flip hgenerated
    exact hpath.closed
  · exact .merge h.1
  · exact .merge h.2

end Build

/-! ### Evaluation -/

namespace World

variable {now : World P} {name : String} {t : TypeId}

theorem closedSpec_resolve {expr : TypeExpr} {type : TypeRef} {typeName : String}
    (h : now.resolve registry typeName expr = .ok type) :
    now.ClosedSpec registry (.ofType type) := by
  induction expr generalizing type with
  | scalar s =>
    obtain rfl := Except.ok.inj h
    exact fun u hu ↦ absurd hu (by simp [FieldSpec.ofType, TypeRef.named?])
  | list element ih =>
    unfold resolve at h
    cases helement : now.resolve registry typeName element with
    | error e => exact absurd h (by simp [helement, Except.map])
    | ok inner =>
      rw [helement] at h
      obtain rfl := Except.ok.inj h
      exact fun u hu ↦ ih helement u hu
  | named name =>
    unfold resolve at h
    split at h
    · next u hlookup =>
      obtain rfl := Except.ok.inj h
      intro v hv
      obtain rfl : u = v := by simpa [FieldSpec.ofType, TypeRef.named?] using hv
      exact ⟨name, hlookup⟩
    · exact absurd h (by simp)

/-- A failure that names a reference to a type that is not registered, for the type `name`. -/
def Unresolved (now : World P) (registry : RegistryId) (name : String) (e : BuildError) : Prop :=
  ∃ reference, e = .unresolvedReference reference name ∧ now.lookup registry reference = none

theorem unresolved_of_resolve {expr : TypeExpr} {e : BuildError}
    (h : now.resolve registry name expr = .error e) : now.Unresolved registry name e := by
  induction expr with
  | scalar s => exact absurd h (by simp [resolve])
  | list element ih =>
    unfold resolve at h
    cases helement : now.resolve registry name element with
    | error e' =>
      rw [helement] at h
      obtain rfl := Except.error.inj h
      exact ih helement
    | ok inner => exact absurd h (by simp [helement, Except.map])
  | named reference =>
    unfold resolve at h
    split at h
    · exact absurd h (by simp)
    · next hlookup => exact ⟨reference, (Except.error.inj h).symm, hlookup⟩

theorem resolveAll_cases (now : World P) (registry : RegistryId) (name : String)
    (entries : List (String × TypeExpr)) :
    (∃ e, now.resolveAll registry name entries = .error e ∧ now.Unresolved registry name e) ∨
      ∃ pairs, now.resolveAll registry name entries = .ok pairs ∧
        ∀ pair ∈ pairs, now.ClosedSpec registry pair.2 := by
  induction entries with
  | nil => exact Or.inr ⟨[], rfl, by simp⟩
  | cons entry rest ih =>
    obtain ⟨field, expr⟩ := entry
    unfold resolveAll
    split
    · next e hexpr => exact Or.inl ⟨e, rfl, unresolved_of_resolve hexpr⟩
    · next type hexpr =>
      rcases ih with ⟨e, hrest, hunresolved⟩ | ⟨pairs, hrest, hpairs⟩
      · exact Or.inl ⟨e, by rw [hrest]; rfl, hunresolved⟩
      · refine Or.inr ⟨(field, .ofType type) :: pairs, by rw [hrest]; rfl, ?_⟩
        exact List.forall_mem_cons.mpr ⟨closedSpec_resolve hexpr, hpairs⟩

/-- Fields with types of the registry. -/
def ClosedFields (now : World P) (registry : RegistryId) (fields : FieldMap) : Prop :=
  ∀ u ∈ namedTypes fields, now.IsRegistered registry u

theorem ClosedFields.insert {fields : FieldMap} (h : now.ClosedFields registry fields)
    (field : String) {spec : FieldSpec} (hspec : now.ClosedSpec registry spec) :
    now.ClosedFields registry (fields.insert field spec) := by
  intro u hu
  obtain ⟨other, old, hlookup, hnamed⟩ := mem_namedTypes_iff.mp hu
  rw [OrderedMap.lookup?_insert] at hlookup
  split at hlookup
  · obtain rfl := Option.some.inj hlookup
    exact hspec u hnamed
  · exact h u (mem_namedTypes_iff.mpr ⟨other, old, hlookup, hnamed⟩)

theorem ClosedFields.insertAll {fields : FieldMap} (h : now.ClosedFields registry fields)
    {pairs : List (String × FieldSpec)} (hpairs : ∀ pair ∈ pairs, now.ClosedSpec registry pair.2) :
    now.ClosedFields registry (fields.insertAll pairs) := by
  induction pairs generalizing fields with
  | nil => exact h
  | cons pair rest ih =>
    obtain ⟨hpair, hrest⟩ := List.forall_mem_cons.mp hpairs
    exact ih (h.insert pair.1 hpair) hrest

theorem closedFields_empty : now.ClosedFields registry ∅ := by
  intro u hu
  exact absurd hu (by simp [namedTypes, OrderedMap.values, EmptyCollection.emptyCollection,
    OrderedMap.empty])

/-- Closed overrides give fields with types of the registry, or name one that is not registered. The
state outside is not touched. -/
theorem resolve_closedSource (now : World P) (outside : Outside P σ) (owner : Option TypeId)
    {source : FieldSource (DeferredMap P)} (hsource : ClosedSource registry name source) (s : σ) :
    (∃ e, source.resolve (now.runner outside owner) s = (.error e, s) ∧
        now.Unresolved registry name e) ∨
      ∃ fields, source.resolve (now.runner outside owner) s = (.ok fields, s) ∧
        ∀ pair ∈ fields.entries, now.ClosedSpec registry pair.2 := by
  rcases hsource with rfl | ⟨entries, rfl⟩
  · exact Or.inr ⟨∅, rfl, fun pair hpair ↦ absurd hpair List.not_mem_nil⟩
  · have hresolve : (FieldSource.deferred (.typeMap entries registry name)).resolve
          (now.runner outside owner) s =
        ((now.resolveAll registry name entries).map .ofList, s) := rfl
    rcases resolveAll_cases now registry name entries with
      ⟨e, herror, hunresolved⟩ | ⟨pairs, hok, hpairs⟩
    · exact Or.inl ⟨e, by rw [hresolve, herror]; rfl, hunresolved⟩
    · refine Or.inr ⟨.ofList pairs, by rw [hresolve, hok]; rfl, ?_⟩
      have hclosed : now.ClosedFields registry (.ofList pairs) :=
        closedFields_empty.insertAll hpairs
      intro pair hpair u hu
      have hlookup := OrderedMap.mem_entries_iff.mp hpair
      exact hclosed u (mem_namedTypes_iff.mpr ⟨pair.1, pair.2, hlookup, hu⟩)

/-- Closed layers are evaluated to fields with types of the registry, or to a failure that names one
that is not registered. The state outside is not touched. -/
theorem evaluateOnto_cases (outside : Outside P σ) (hself : now.IsRegistered registry t)
    {layers : FieldThunk (DeferredField P) (DeferredMap P)}
    (hlayers : ∀ layer ∈ layers, now.ClosedLayer registry name layer) {fields : FieldMap}
    (hfields : now.ClosedFields registry fields) (s : σ) :
    (∃ e, FieldThunk.evaluateOnto (now.runner outside (some t)) fields layers s = (.error e, s) ∧
        now.Unresolved registry name e) ∨
      ∃ all, FieldThunk.evaluateOnto (now.runner outside (some t)) fields layers s = (.ok all, s) ∧
        now.ClosedFields registry all := by
  induction layers generalizing fields with
  | nil => exact Or.inr ⟨fields, rfl, hfields⟩
  | cons layer rest ih =>
    obtain ⟨hlayer, hrest⟩ := List.forall_mem_cons.mp hlayers
    cases hlayer with
    | field field hspec => exact ih hrest (hfields.insert field hspec)
    | reference field typeName =>
      simp only [FieldThunk.evaluateOnto, runner, produceField]
      cases hlookup : now.lookup registry typeName with
      | none => exact Or.inl ⟨_, rfl, typeName, rfl, hlookup⟩
      | some u =>
        refine ih hrest (hfields.insert field fun v hv ↦ ?_)
        obtain rfl : u = v := by simpa [FieldSpec.ofType, TypeRef.named?] using hv
        exact ⟨typeName, hlookup⟩
    | itself field isArray =>
      refine ih hrest (hfields.insert field fun v hv ↦ ?_)
      obtain rfl : t = v := by simpa [FieldSpec.ofType, TypeRef.named?] using hv
      exact hself
    | merge hsource =>
      rcases resolve_closedSource now outside (some t) hsource s with
        ⟨e, herror, hunresolved⟩ | ⟨more, hok, hmore⟩
      · exact Or.inl ⟨e, by simp only [FieldThunk.evaluateOnto, herror], hunresolved⟩
      · simp only [FieldThunk.evaluateOnto, hok]
        exact ih hrest (hfields.insertAll hmore)

/-- The fields of a closed type have types of the registry, or the evaluation fails with a name that
is not registered, for the type itself. -/
theorem ClosedType.fields_cases (h : now.ClosedType registry name t)
    (hregistered : now.IsRegistered registry t) (outside : Outside P σ) (s : σ) :
    (∃ e, now.fields outside t s = (.error e, s) ∧ now.Unresolved registry name e) ∨
      ∃ fields, now.fields outside t s = (.ok fields, s) ∧ now.ClosedFields registry fields :=
  evaluateOnto_cases outside hregistered h.layers closedFields_empty s

end World

end DocumentTypes

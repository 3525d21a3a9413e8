import DocumentTypes.Proofs.Build.SoundWorld

/-!
What the fields of a type show: their names with the texts of their types, or the error that ends
the evaluation (`World.shownFields`). Two worlds may hold different types under the same names. As
long as these types bear the same names (`World.SameNames`), what is recorded about a type shows the
same in both: layers that are the same (`sameLayer_of_old`), or that were recorded for the same
request (`sameLayers_of_fulfils`). Producers from outside are asked to do so themselves
(`Outside.ShowsSame`).
-/

set_option autoImplicit false

namespace DocumentTypes

variable {P : Producers} {σ α β : Type}

/-- The fields of a type, evaluated now, as names with the texts of their types. -/
def World.shownFields (w : World P) (outside : Outside P σ) (t : TypeId) (s : σ) :
    Except BuildError (List (String × String)) :=
  (w.fields outside t s).1.map fun fields ↦
    fields.entries.map fun field ↦ (field.1, w.typeText field.2.type)

/-! ### Results that correspond -/

/-- The same error, or values that correspond. -/
inductive SameResult (R : α → β → Prop) : Except BuildError α → Except BuildError β → Prop
  | error (e : BuildError) : SameResult R (.error e) (.error e)
  | ok {a : α} {b : β} (h : R a b) : SameResult R (.ok a) (.ok b)

theorem SameResult.map {α' β' : Type} {R : α → β → Prop} {S : α' → β' → Prop}
    {result : Except BuildError α} {result' : Except BuildError β} {f : α → α'} {g : β → β'}
    (h : SameResult R result result') (hmap : ∀ a b, R a b → S (f a) (g b)) :
    SameResult S (result.map f) (result'.map g) := by
  cases h with
  | error e => exact .error e
  | ok h => exact .ok (hmap _ _ h)

/-- From every state, the runs have corresponding results and leave the same state. -/
def SameRun (R : α → β → Prop) (run : σ → Except BuildError α × σ)
    (run' : σ → Except BuildError β × σ) : Prop :=
  ∀ s, SameResult R (run s).1 (run' s).1 ∧ (run s).2 = (run' s).2

theorem SameRun.cases {R : α → β → Prop} {run : σ → Except BuildError α × σ}
    {run' : σ → Except BuildError β × σ} (h : SameRun R run run') (s : σ) :
    (∃ e s₁, run s = (.error e, s₁) ∧ run' s = (.error e, s₁)) ∨
      ∃ a b s₁, run s = (.ok a, s₁) ∧ run' s = (.ok b, s₁) ∧ R a b := by
  obtain ⟨hresult, hstate⟩ := h s
  rcases hrun : run s with ⟨result, s₁⟩
  rcases hrun' : run' s with ⟨result', s₁'⟩
  rw [hrun, hrun'] at hresult hstate
  obtain rfl : s₁ = s₁' := hstate
  cases hresult with
  | error e => exact Or.inl ⟨e, s₁, rfl, rfl⟩
  | ok h => exact Or.inr ⟨_, _, s₁, rfl, rfl, h⟩

namespace World

variable {v v' : World P} {bound : TypeId}

/-! ### Worlds with the same names -/

/-- Types before `bound` are the same in both worlds, and under every name the registries hold types
of the same name, or none. -/
structure SameNames (v v' : World P) (bound : TypeId) : Prop where
  typeAt : ∀ t < bound, v.typeAt t = v'.typeAt t
  registered : ∀ id name, (v.lookup id name).map (fun t ↦ (v.typeAt t).name) =
    (v'.lookup id name).map fun t ↦ (v'.typeAt t).name

/-- The types have the same text. -/
def SameText (v v' : World P) (type type' : TypeRef) : Prop :=
  v.typeText type = v'.typeText type'

/-- The fields have the same names, in the same order, and types of the same text. -/
def SameFields (v v' : World P) (fields fields' : FieldMap) : Prop :=
  fields.Related (fun _ spec spec' ↦ v.SameText v' spec.type spec'.type) fields'

theorem SameNames.cases (h : v.SameNames v' bound) (id : RegistryId) (name : String) :
    (v.lookup id name = none ∧ v'.lookup id name = none) ∨
      ∃ t t', v.lookup id name = some t ∧ v'.lookup id name = some t' ∧
        v.SameText v' (.named t) (.named t') := by
  have hnames := h.registered id name
  cases hlookup : v.lookup id name with
  | none =>
    rw [hlookup] at hnames
    exact Or.inl ⟨rfl, Option.map_eq_none_iff.mp hnames.symm⟩
  | some t =>
    rw [hlookup] at hnames
    obtain ⟨t', hlookup', hname⟩ := Option.map_eq_some_iff.mp hnames.symm
    exact Or.inr ⟨t, t', rfl, hlookup', hname.symm⟩

theorem sameText_scalar (v v' : World P) (s : Scalar) : v.SameText v' (.scalar s) (.scalar s) :=
  rfl

theorem SameText.list {type type' : TypeRef} (h : v.SameText v' type type') :
    v.SameText v' (.list type) (.list type') :=
  congrArg (fun text ↦ "[" ++ text ++ "]") h

theorem SameText.listIf {type type' : TypeRef} (h : v.SameText v' type type') (isList : Bool) :
    v.SameText v' (.listIf isList type) (.listIf isList type') := by
  cases isList with
  | true => exact h.list
  | false => exact h

theorem sameText_of_named {type : TypeRef}
    (hnamed : ∀ u, type.named? = some u → v.SameText v' (.named u) (.named u)) :
    v.SameText v' type type := by
  induction type with
  | scalar s => exact sameText_scalar v v' s
  | list element ih => exact (ih hnamed).list
  | named u => exact hnamed u rfl

/-- Fields with types of the same name in both worlds show the same. -/
theorem sameFields_of_named {fields : FieldMap}
    (hnamed : ∀ u ∈ namedTypes fields, v.SameText v' (.named u) (.named u)) :
    v.SameFields v' fields fields := by
  refine OrderedMap.related_of_lookup? rfl fun name spec spec' hspec hspec' ↦ ?_
  obtain rfl := Option.some.inj (hspec.symm.trans hspec')
  refine sameText_of_named fun u hu ↦ hnamed u (List.mem_filterMap.mpr ⟨spec, ?_, hu⟩)
  exact OrderedMap.mem_values_iff.mpr ⟨name, hspec⟩

/-- Type expressions are resolved to types of the same text, or to the same error. -/
theorem SameNames.resolve (h : v.SameNames v' bound) (id : RegistryId) (typeName : String)
    (expr : TypeExpr) :
    SameResult (v.SameText v') (v.resolve id typeName expr) (v'.resolve id typeName expr) := by
  induction expr with
  | scalar s => exact .ok (sameText_scalar v v' s)
  | list element ih => exact ih.map fun _ _ htext ↦ htext.list
  | named name =>
    unfold World.resolve
    rcases h.cases id name with ⟨hnone, hnone'⟩ | ⟨t, t', hlookup, hlookup', htext⟩
    · rw [hnone, hnone']
      exact .error _
    · rw [hlookup, hlookup']
      exact .ok htext

theorem SameNames.resolveAll (h : v.SameNames v' bound) (id : RegistryId) (typeName : String)
    (entries : List (String × TypeExpr)) :
    SameResult (List.Forall₂ fun field field' ↦
        field.1 = field'.1 ∧ v.SameText v' field.2.type field'.2.type)
      (v.resolveAll id typeName entries) (v'.resolveAll id typeName entries) := by
  induction entries with
  | nil => exact .ok .nil
  | cons entry rest ih =>
    obtain ⟨field, expr⟩ := entry
    unfold World.resolveAll
    have hexpr := h.resolve id typeName expr
    generalize v.resolve id typeName expr = result, v'.resolve id typeName expr = result' at hexpr
    cases hexpr with
    | error e => exact .error e
    | ok htext => exact ih.map fun _ _ hrest ↦ .cons ⟨rfl, htext⟩ hrest

end World

/-- If the layer leaves its fields to a producer from outside, it does the same in both worlds: from
every state it fails with the same error or yields fields of the same text, and leaves the same
state. -/
def Outside.ShowsSame (outside : Outside P σ) (v v' : World P) :
    FieldLayer (DeferredField P) (DeferredMap P) → Prop
  | .deferred _ (.custom producer) => SameRun (fun spec spec' ↦ v.SameText v' spec.type spec'.type)
      (outside.field producer v) (outside.field producer v')
  | .merge (.deferred (.custom producer)) => SameRun (v.SameFields v')
      (outside.fieldMap producer v) (outside.fieldMap producer v')
  | _ => True

open World

variable {outside : Outside P σ} {v v' : World P} {bound : TypeId} {t t' : TypeId}

/-! ### Layers -/

/-- Layers of the types at `t` and `t'` that assign the same names, with types of the same text. -/
inductive SameLayer (outside : Outside P σ) (v v' : World P) (t t' : TypeId) :
    FieldLayer (DeferredField P) (DeferredMap P) →
      FieldLayer (DeferredField P) (DeferredMap P) → Prop
  | field (name : String) {spec spec' : FieldSpec} (h : v.SameText v' spec.type spec'.type) :
      SameLayer outside v v' t t' (.field name spec) (.field name spec')
  | deferred (name : String) {producer : DeferredField P}
      (h : SameRun (fun spec spec' ↦ v.SameText v' spec.type spec'.type)
        (v.produceField outside (some t) producer) (v'.produceField outside (some t') producer)) :
      SameLayer outside v v' t t' (.deferred name producer) (.deferred name producer)
  | merge {source : FieldSource (DeferredMap P)}
      (h : SameRun (v.SameFields v') (source.resolve (v.runner outside (some t)))
        (source.resolve (v'.runner outside (some t')))) :
      SameLayer outside v v' t t' (.merge source) (.merge source)

/-- Corresponding layers on top of corresponding fields show the same. -/
theorem sameRun_evaluateOnto {layers layers' : FieldThunk (DeferredField P) (DeferredMap P)}
    (hlayers : List.Forall₂ (SameLayer outside v v' t t') layers layers')
    {fields fields' : FieldMap} (hfields : v.SameFields v' fields fields') :
    SameRun (v.SameFields v') (layers.evaluateOnto (v.runner outside (some t)) fields)
      (layers'.evaluateOnto (v'.runner outside (some t')) fields') := by
  induction hlayers generalizing fields fields' with
  | nil => exact fun s ↦ ⟨.ok hfields, rfl⟩
  | cons hlayer _ ih =>
    cases hlayer with
    | field name htext => exact ih (hfields.insert htext)
    | @deferred name producer h =>
      intro s
      rcases h.cases s with ⟨e, s₁, hrun, hrun'⟩ | ⟨spec, spec', s₁, hrun, hrun', htext⟩
      · simp only [FieldThunk.evaluateOnto, runner, hrun, hrun']
        exact ⟨.error e, trivial⟩
      · simp only [FieldThunk.evaluateOnto, runner, hrun, hrun']
        exact ih (hfields.insert htext) s₁
    | @merge source h =>
      intro s
      rcases h.cases s with ⟨e, s₁, hrun, hrun'⟩ | ⟨more, more', s₁, hrun, hrun', hmore⟩
      · simp only [FieldThunk.evaluateOnto, hrun, hrun']
        exact ⟨.error e, trivial⟩
      · simp only [FieldThunk.evaluateOnto, hrun, hrun']
        exact ih (OrderedMap.related_insertAll hfields hmore) s₁

theorem shownFields_eq (hlayers : List.Forall₂ (SameLayer outside v v' t t') (v.typeAt t).fields
    (v'.typeAt t').fields) (s : σ) :
    v.shownFields outside t s = v'.shownFields outside t' s := by
  have hempty : v.SameFields v' ∅ ∅ := List.Forall₂.nil
  obtain ⟨hresult, -⟩ := sameRun_evaluateOnto hlayers hempty s
  have hshown : SameResult Eq (v.shownFields outside t s) (v'.shownFields outside t' s) := by
    refine hresult.map fun fields fields' hsame ↦ ?_
    rw [← List.forall₂_eq_eq_eq, List.forall₂_map_left_iff, List.forall₂_map_right_iff]
    exact List.Forall₂.imp (fun _ _ hfield ↦ Prod.ext hfield.1 hfield.2) hsame
  generalize v.shownFields outside t s = result, v'.shownFields outside t' s = result' at hshown
  cases hshown with
  | error e => rfl
  | ok h => rw [h]

theorem World.SameNames.sameLayer_reference (h : v.SameNames v' bound) (field : String)
    (id : RegistryId) (name typeName : String) :
    SameLayer outside v v' t t' (.deferred field (.reference id name typeName))
      (.deferred field (.reference id name typeName)) := by
  refine .deferred field fun s ↦ ?_
  simp only [produceField]
  rcases h.cases id name with ⟨hnone, hnone'⟩ | ⟨u, u', hlookup, hlookup', htext⟩
  · simp only [hnone, hnone']
    exact ⟨.error _, trivial⟩
  · simp only [hlookup, hlookup']
    exact ⟨.ok htext, trivial⟩

theorem sameLayer_itself (howner : v.SameText v' (.named t) (.named t')) (field : String)
    (isArray : Bool) (typeName : String) :
    SameLayer outside v v' t t' (.deferred field (.itself isArray typeName))
      (.deferred field (.itself isArray typeName)) :=
  .deferred field fun _ ↦ ⟨.ok (howner.listIf isArray), rfl⟩

theorem sameLayer_ready {fields : FieldMap}
    (hnamed : ∀ u ∈ namedTypes fields, v.SameText v' (.named u) (.named u)) :
    SameLayer outside v v' t t' (.merge (.ready fields)) (.merge (.ready fields)) :=
  .merge fun _ ↦ ⟨.ok (sameFields_of_named hnamed), rfl⟩

theorem World.SameNames.sameLayer_typeMap (h : v.SameNames v' bound)
    (entries : List (String × TypeExpr)) (id : RegistryId) (typeName : String) :
    SameLayer outside v v' t t' (.merge (.deferred (.typeMap entries id typeName)))
      (.merge (.deferred (.typeMap entries id typeName))) :=
  .merge fun _ ↦ ⟨(h.resolveAll id typeName entries).map fun _ _ hpairs ↦
    OrderedMap.related_ofList hpairs, rfl⟩

/-- A layer that records types of the same name in both worlds shows the same. -/
theorem sameLayer_of_named (h : v.SameNames v' bound)
    (howner : v.SameText v' (.named t) (.named t'))
    {layer : FieldLayer (DeferredField P) (DeferredMap P)}
    (hnamed : ∀ u ∈ layer.recordedTypes, v.SameText v' (.named u) (.named u))
    (houtside : outside.ShowsSame v v' layer) : SameLayer outside v v' t t' layer layer := by
  cases layer with
  | field name spec =>
    exact .field name (sameText_of_named fun u hu ↦ hnamed u (Option.mem_toList.mpr hu))
  | deferred name producer =>
    cases producer with
    | reference id reference typeName => exact h.sameLayer_reference name id reference typeName
    | itself isArray typeName => exact sameLayer_itself howner name isArray typeName
    | custom producer => exact .deferred name houtside
  | merge source =>
    cases source with
    | ready fields => exact sameLayer_ready hnamed
    | deferred producer =>
      cases producer with
      | typeMap entries id typeName => exact h.sameLayer_typeMap entries id typeName
      | custom producer => exact .merge houtside

/-- A layer that records types before `bound` shows the same in both worlds. -/
theorem sameLayer_of_old (h : v.SameNames v' bound)
    (howner : v.SameText v' (.named t) (.named t'))
    {layer : FieldLayer (DeferredField P) (DeferredMap P)}
    (hold : ∀ u ∈ layer.recordedTypes, u < bound) (houtside : outside.ShowsSame v v' layer) :
    SameLayer outside v v' t t' layer layer :=
  sameLayer_of_named h howner
    (fun u hu ↦ congrArg GeneratedType.name (h.typeAt u (hold u hu))) houtside

/-! ### Requests -/

/-- A fixed map without named types, or type expressions that the registry resolves. -/
inductive PlainSource (registry : RegistryId) : FieldSource (DeferredMap P) → Prop
  | fixed {fields : FieldMap} (hscalars : namedTypes fields = []) :
      PlainSource registry (.ready fields)
  | typeMap (entries : List (String × TypeExpr)) (typeName : String) :
      PlainSource registry (.deferred (.typeMap entries registry typeName))

/-- The overrides are fixed maps without named types, or type expressions that the registry
resolves. -/
structure BuildRequest.HasPlainOverrides (registry : RegistryId) (request : BuildRequest P) :
    Prop where
  extend : PlainSource registry request.extend
  props : PlainSource registry request.props

theorem BuildRequest.hasPlainOverrides_nested (registry : RegistryId) (request : BuildRequest P)
    (field : String) (schema : SchemaId) :
    (request.nested field schema).HasPlainOverrides registry :=
  ⟨.fixed rfl, .fixed rfl⟩

variable {heap : SchemaHeap} {registry : RegistryId} {request : BuildRequest P}

theorem World.SameNames.sameLayer_of_plainSource (h : v.SameNames v' bound)
    {source : FieldSource (DeferredMap P)} (hsource : PlainSource registry source) :
    SameLayer outside v v' t t' (.merge source) (.merge source) := by
  cases hsource with
  | fixed hscalars =>
    exact sameLayer_ready fun u hu ↦ absurd hu (hscalars ▸ List.not_mem_nil)
  | typeMap entries typeName => exact h.sameLayer_typeMap entries registry typeName

/-- What a path is recorded as in two worlds shows the same. -/
theorem World.SameNames.sameLayer_of_records (h : v.SameNames v' bound)
    (howner : v.SameText v' (.named t) (.named t')) {name : String} {schema : SchemaId}
    {path : String × PathDescriptor SchemaLink}
    {layer layer' : FieldLayer (DeferredField P) (DeferredMap P)}
    (hrecords : v.Records registry name schema path layer)
    (hrecords' : v'.Records registry name schema path layer') :
    SameLayer outside v v' t t' layer layer' := by
  cases hrecords with
  | reference field typeName isArray =>
    cases hrecords'
    exact h.sameLayer_reference field registry typeName name
  | primitive field isArray hscalar =>
    cases hrecords' with
    | primitive _ _ hscalar' =>
      obtain rfl := Except.ok.inj (hscalar.symm.trans hscalar')
      exact .field field ((sameText_scalar v v' _).listIf isArray)
  | itself field isArray hself =>
    cases hrecords' with
    | itself _ _ _ => exact sameLayer_itself howner field isArray name
    | nested _ _ hother _ => exact absurd hself hother
  | nested field isArray hother hlookup =>
    cases hrecords' with
    | itself _ _ hself => exact absurd hself hother
    | nested _ _ _ hlookup' =>
      refine .field field (SameText.listIf ?_ isArray)
      rcases h.cases registry (subFieldName name field) with
        ⟨hnone, -⟩ | ⟨u, u', hfound, hfound', htext⟩
      · exact absurd (hnone.symm.trans hlookup) (by simp)
      · obtain rfl := Option.some.inj (hlookup.symm.trans hfound)
        obtain rfl := Option.some.inj (hlookup'.symm.trans hfound')
        exact htext

/-- Types that fulfil the same request in both worlds have layers that show the same, whatever
producers from outside do. -/
theorem sameLayers_of_fulfils (h : v.SameNames v' bound)
    (hplain : request.HasPlainOverrides registry) (hfulfils : v.Fulfils heap registry request t)
    (hfulfils' : v'.Fulfils heap registry request t') :
    List.Forall₂ (SameLayer outside v v' t t') (v.typeAt t).fields (v'.typeAt t').fields := by
  have howner : v.SameText v' (.named t) (.named t') :=
    hfulfils.name_eq.trans hfulfils'.name_eq.symm
  obtain ⟨layers, htype, hrecorded⟩ := hfulfils.recorded
  obtain ⟨layers', htype', hrecorded'⟩ := hfulfils'.recorded
  have hlayers : List.Forall₂ (SameLayer outside v v' t t') layers layers' := by
    clear htype htype'
    generalize heap.kept request.exclude request.schema = paths at hrecorded hrecorded'
    induction hrecorded generalizing layers' with
    | nil =>
      cases hrecorded'
      exact .nil
    | cons hrecords _ ih =>
      cases hrecorded' with
      | cons hrecords' hrest =>
        exact .cons (h.sameLayer_of_records howner hrecords hrecords') (ih _ hrest)
  rw [htype, htype']
  exact List.rel_append
    (List.rel_append hlayers (.cons (h.sameLayer_of_plainSource hplain.extend) .nil))
    (.cons (h.sameLayer_of_plainSource hplain.props) .nil)

end DocumentTypes

import DocumentTypes.Proofs.Build.Positions
import DocumentTypes.Proofs.Build.ShownFields
import DocumentTypes.Proofs.Build.WriteOnce
import DocumentTypes.Workbench.Step

/-!
Overrides do nothing until fields are evaluated. A build looks at names and places of types and at
nothing that is recorded in them: in worlds that match, which may hold different types at the same
places, the same build goes in step, with the same result and the same new types (`RunsInStep`,
`runsInStep_buildWithin`). Builds of requests that differ in their overrides do so as well, up to
the overrides of the requested type itself (`exists_build_withOverrides`). So whatever producers are
recorded in a request or in the types that exist, none of them is run (`overrides_inert`).
-/

set_option autoImplicit false

namespace DocumentTypes

variable {P : Producers} {heap : SchemaHeap} {registry : RegistryId} {ancestors : Lineage}
  {request : BuildRequest P}

/-- The request with other overrides. -/
abbrev BuildRequest.withOverrides (request : BuildRequest P)
    (extend props : FieldSource (DeferredMap P)) : BuildRequest P :=
  { request with extend, props }

namespace World

variable {w w₁ w' v v₁ v' : World P}

/-- The worlds have the same registries and equally many types, which may be different ones. -/
structure Matches (w v : World P) : Prop where
  registries : v.registries = w.registries
  nextType : v.nextType = w.nextType

/-- From `w` to `w'` and from `v` to `v'` the same types are added, and the registries end up the
same. -/
def InStep (w w' v v' : World P) : Prop :=
  ∃ added : Array (GeneratedType P), w'.types = w.types ++ added ∧ v'.types = v.types ++ added ∧
    v'.registries = w'.registries

theorem Matches.lookup_eq (h : w.Matches v) (id : RegistryId) (name : String) :
    v.lookup id name = w.lookup id name := by
  rw [lookup, registryAt, registry?_eq, h.registries]
  rfl

theorem InStep.refl (h : w.Matches v) : InStep w w v v :=
  ⟨#[], Array.append_empty.symm, Array.append_empty.symm, h.registries⟩

theorem InStep.trans (hfirst : InStep w w₁ v v₁) (hsecond : InStep w₁ w' v₁ v') :
    InStep w w' v v' := by
  obtain ⟨added, hw₁, hv₁, -⟩ := hfirst
  obtain ⟨more, hw', hv', hregistries⟩ := hsecond
  exact ⟨added ++ more, by rw [hw', hw₁, Array.append_assoc], by rw [hv', hv₁, Array.append_assoc],
    hregistries⟩

theorem InStep.matches (h : InStep w w' v v') (hmatch : w.Matches v) : w'.Matches v' := by
  obtain ⟨added, hw', hv', hregistries⟩ := h
  refine ⟨hregistries, ?_⟩
  have hsize : v.types.size = w.types.size := hmatch.nextType
  rw [nextType, nextType, hw', hv', Array.size_append, Array.size_append, hsize]

/-- What is at a new place is the same. -/
theorem InStep.typeAt_eq (h : InStep w w' v v') (hmatch : w.Matches v) {t : TypeId}
    (ht : w.nextType ≤ t) : v'.typeAt t = w'.typeAt t := by
  obtain ⟨added, hw', hv', -⟩ := h
  have hsize : v.types.size = w.types.size := hmatch.nextType
  rw [typeAt, typeAt, hw', hv', Array.getElem?_append_right ht,
    Array.getElem?_append_right (hsize.trans_le ht), hsize]

/-- Types of the same name are constructed at the same place, or both refused. -/
theorem Matches.exists_construct (hmatch : w.Matches v) {type type' : GeneratedType P}
    (hname : type'.name = type.name) :
    ∃ result w' v', w.construct registry type = (result, w') ∧
      v.construct registry type' = (result, v') ∧ v'.registries = w'.registries ∧
      ((∃ e, result = .error e ∧ w' = w ∧ v' = v) ∨
        result = .ok w.nextType ∧ w'.types = w.types.push type ∧
          v'.types = v.types.push type') := by
  have hregistry :
      (v.addType type').registryAt registry = (w.addType type).registryAt registry := by
    rw [registryAt, registryAt, registry?_eq, registry?_eq, addType, addType, hmatch.registries]
  unfold construct register
  rw [hregistry, hname, hmatch.nextType]
  cases ((w.addType type).registryAt registry).register type.name w.nextType with
  | error e => exact ⟨_, w, v, rfl, rfl, hmatch.registries, Or.inl ⟨e, rfl, rfl, rfl⟩⟩
  | ok entries =>
    refine ⟨_, _, _, rfl, rfl, ?_, Or.inr ⟨rfl, rfl, rfl⟩⟩
    exact congrArg (·.setIfInBounds registry (some entries)) hmatch.registries

end World

open World

/-- In worlds that match, the run gives the same result and makes the same changes. -/
def RunsInStep {α : Type} (run : World P → Except BuildError α × World P) : Prop :=
  ∀ w v, w.Matches v → ∃ result w' v', run w = (result, w') ∧ run v = (result, v') ∧
    InStep w w' v v'

section Walk

variable {nested : (field : String) → (target : SchemaId) → target ≠ request.schema → World P →
    Except BuildError TypeId × World P}

theorem runsInStep_pathLayer
    (hnested : ∀ field target hself, RunsInStep (nested field target hself)) (field : String)
    (d : PathDescriptor SchemaLink) : RunsInStep (pathLayer request registry nested field d) := by
  intro w v hmatch
  obtain ⟨element, isArray⟩ := d
  cases element with
  | reference typeName => exact ⟨_, w, v, rfl, rfl, .refl hmatch⟩
  | primitive kind =>
    cases hscalar : kind.scalar with
    | error e =>
      simp only [pathLayer, hscalar]
      exact ⟨_, w, v, rfl, rfl, .refl hmatch⟩
    | ok scalar =>
      simp only [pathLayer, hscalar]
      exact ⟨_, w, v, rfl, rfl, .refl hmatch⟩
  | embedded link =>
    by_cases hself : link.target = request.schema
    · simp only [pathLayer, dif_pos hself]
      exact ⟨_, w, v, rfl, rfl, .refl hmatch⟩
    · obtain ⟨result, w', v', hw, hv, hstep⟩ := hnested field link.target hself w v hmatch
      simp only [pathLayer, dif_neg hself, hw, hv]
      cases result with
      | error e => exact ⟨_, w', v', rfl, rfl, hstep⟩
      | ok t => exact ⟨_, w', v', rfl, rfl, hstep⟩

theorem runsInStep_walk (hnested : ∀ field target hself, RunsInStep (nested field target hself))
    (paths : List (String × PathDescriptor SchemaLink)) :
    RunsInStep (walk request registry nested paths) := by
  induction paths with
  | nil => exact fun w v hmatch ↦ ⟨_, w, v, rfl, rfl, .refl hmatch⟩
  | cons path rest ih =>
    obtain ⟨field, d⟩ := path
    intro w v hmatch
    by_cases hexclude : field ∈ request.exclude
    · rw [walk_cons_of_mem hexclude, walk_cons_of_mem hexclude]
      exact ih w v hmatch
    obtain ⟨layer, w₁, v₁, hw, hv, hfirst⟩ := runsInStep_pathLayer hnested field d w v hmatch
    cases layer with
    | error e =>
      rw [walk_cons_of_error hexclude hw, walk_cons_of_error hexclude hv]
      exact ⟨_, w₁, v₁, rfl, rfl, hfirst⟩
    | ok layer =>
      obtain ⟨layers, w', v', hw', hv', hsecond⟩ := ih w₁ v₁ (hfirst.matches hmatch)
      rw [walk_cons_of_ok hexclude hw, walk_cons_of_ok hexclude hv, hw', hv']
      cases layers with
      | error e => exact ⟨_, w', v', rfl, rfl, hfirst.trans hsecond⟩
      | ok layers => exact ⟨_, w', v', rfl, rfl, hfirst.trans hsecond⟩

/-- A walk does not look at the overrides of its request. -/
theorem walk_withOverrides (extend props : FieldSource (DeferredMap P))
    (paths : List (String × PathDescriptor SchemaLink)) (w : World P) :
    walk (request.withOverrides extend props) registry nested paths w =
      walk request registry nested paths w := by
  induction paths generalizing w with
  | nil => rfl
  | cons path rest ih =>
    obtain ⟨field, d⟩ := path
    have hlayer : pathLayer (request.withOverrides extend props) registry nested field d w =
        pathLayer request registry nested field d w := rfl
    simp only [walk, hlayer, ih]

end Walk

/-- From `w` to `w'` and from `v` to `v'` the same types are added, and at last the type of
`request` with its own overrides and with the given ones, on the same layers and at the same place,
which is the result. -/
def BuildRequest.BuiltInStep (request : BuildRequest P)
    (extend props : FieldSource (DeferredMap P)) (result : Except BuildError TypeId)
    (w w' v v' : World P) : Prop :=
  ∃ layers w₁ v₁, InStep w w₁ v v₁ ∧ result = .ok w₁.nextType ∧
    w'.types = w₁.types.push (request.type layers) ∧
    v'.types = v₁.types.push ((request.withOverrides extend props).type layers) ∧
    v'.registries = w'.registries

/-- In worlds that match, builds of requests that differ in their overrides go in step up to the
type of the request, as long as the nested builds go in step: overrides are not handed down, so both
walks make the same nested builds. -/
theorem exists_buildWithin_of_nested
    (hnested : ∀ field target hself, RunsInStep (nestedBuild heap registry ancestors request field
      target hself)) (extend props : FieldSource (DeferredMap P)) {w v : World P}
    (hmatch : w.Matches v) :
    ∃ result w' v', buildWithin heap registry ancestors request w = (result, w') ∧
      buildWithin heap registry ancestors (request.withOverrides extend props) v = (result, v') ∧
      (InStep w w' v v' ∧ (∀ t, result = .ok t → w.lookup registry request.name = some t) ∨
        request.BuiltInStep extend props result w w' v v') := by
  rw [buildWithin_eq_buildStep, buildStep, buildStep, hmatch.lookup_eq]
  dsimp only
  by_cases hempty : (heap.paths request.schema).isEmpty = true
  · rw [if_pos hempty, if_pos hempty]
    exact ⟨_, w, v, rfl, rfl, Or.inl ⟨.refl hmatch, fun t h ↦ absurd h (by simp)⟩⟩
  rw [if_neg hempty, if_neg hempty]
  by_cases hname : request.name.isEmpty = true
  · rw [if_pos hname, if_pos hname]
    exact ⟨_, w, v, rfl, rfl, Or.inl ⟨.refl hmatch, fun t h ↦ absurd h (by simp)⟩⟩
  rw [if_neg hname, if_neg hname]
  cases w.lookup registry request.name with
  | some t =>
    exact ⟨_, w, v, rfl, rfl,
      Or.inl ⟨.refl hmatch, fun u h ↦ congrArg some (Except.ok.inj h)⟩⟩
  | none =>
    obtain ⟨layers, w₁, v₁, hw, hv, hstep⟩ :=
      runsInStep_walk hnested (heap.kept request.exclude request.schema) w v hmatch
    have hwalk : walk request registry (nestedStep heap (buildWithin heap registry) ancestors
        request) (heap.kept request.exclude request.schema) w = (layers, w₁) := hw
    have hwalk' : walk (request.withOverrides extend props) registry
        (nestedStep heap (buildWithin heap registry) ancestors (request.withOverrides extend props))
        (heap.kept request.exclude request.schema) v = (layers, v₁) :=
      (walk_withOverrides extend props _ v).trans hv
    rw [hwalk, hwalk']
    cases layers with
    | error e => exact ⟨_, w₁, v₁, rfl, rfl, Or.inl ⟨hstep, fun t h ↦ absurd h (by simp)⟩⟩
    | ok layers =>
      have htype : ((request.withOverrides extend props).type layers).name =
          (request.type layers).name := rfl
      obtain ⟨result, w', v', hw', hv', hregistries, hadded⟩ :=
        (hstep.matches hmatch).exists_construct htype
      refine ⟨result, w', v', hw', hv', ?_⟩
      rcases hadded with ⟨e, rfl, rfl, rfl⟩ | ⟨hresult, hpushed, hpushed'⟩
      · exact Or.inl ⟨hstep, fun t h ↦ absurd h (by simp)⟩
      · exact Or.inr ⟨layers, w₁, v₁, hstep, hresult, hpushed, hpushed', hregistries⟩

/-- Where builds of one request go in step up to its type, they go in step. -/
theorem BuildRequest.BuiltInStep.inStep {result : Except BuildError TypeId} {w w' v v' : World P}
    (h : request.BuiltInStep request.extend request.props result w w' v v') :
    InStep w w' v v' := by
  obtain ⟨layers, w₁, v₁, hstep, -, hpushed, hpushed', hregistries⟩ := h
  exact hstep.trans ⟨#[request.type layers], hpushed.trans (Array.push_eq_append ..),
    hpushed'.trans (Array.push_eq_append ..), hregistries⟩

/-- Nested builds go in step when building the requests for them does. -/
theorem runsInStep_nestedBuild
    (hbuild : ∀ field target, target ≠ request.schema → target ∉ ancestors.schemas →
      heap.isAlive target = true → RunsInStep (buildWithin heap registry
        (ancestors ++ [(request.name, request.schema)]) (request.nested field target)))
    (field : String) (target : SchemaId) (hself : target ≠ request.schema) :
    RunsInStep (nestedBuild heap registry ancestors request field target hself) := by
  intro w v hmatch
  unfold nestedBuild nestedStep
  by_cases hcycle : target ∈ ancestors.schemas
  · rw [if_pos hcycle, if_pos hcycle]
    exact ⟨_, w, v, rfl, rfl, .refl hmatch⟩
  rw [if_neg hcycle, if_neg hcycle]
  by_cases halive : heap.isAlive target = true
  · rw [if_pos halive, if_pos halive]
    exact hbuild field target hself hcycle halive w v hmatch
  · rw [if_neg halive, if_neg halive]
    exact ⟨_, w, v, rfl, rfl, .refl hmatch⟩

/-- The same build goes in step in worlds that match. -/
theorem runsInStep_buildWithin (heap : SchemaHeap) (registry : RegistryId) (ancestors : Lineage)
    (request : BuildRequest P) : RunsInStep (buildWithin heap registry ancestors request) := by
  intro w
  induction ancestors, request, w using nested_induction heap with
  | step ancestors request w ih =>
    intro v hmatch
    have hnested := runsInStep_nestedBuild fun field target hself hcycle halive w ↦
      ih field target w hself hcycle halive
    obtain ⟨result, w', v', hw, hv, hresult⟩ :=
      exists_buildWithin_of_nested hnested request.extend request.props hmatch
    exact ⟨result, w', v', hw, hv, hresult.elim And.left BuildRequest.BuiltInStep.inStep⟩

/-- Builds of requests that differ in their overrides go in step up to the requested type. -/
theorem exists_build_withOverrides (heap : SchemaHeap) (registry : RegistryId)
    (request : BuildRequest P) (extend props : FieldSource (DeferredMap P)) {w v : World P}
    (hmatch : w.Matches v) :
    ∃ result w' v', w.build heap registry request = (result, w') ∧
      v.build heap registry (request.withOverrides extend props) = (result, v') ∧
      (InStep w w' v v' ∧ (∀ t, result = .ok t → w.lookup registry request.name = some t) ∨
        request.BuiltInStep extend props result w w' v v') :=
  exists_buildWithin_of_nested
    (runsInStep_nestedBuild fun _ _ _ _ _ ↦ runsInStep_buildWithin heap registry _ _)
    extend props hmatch

/-! ### Worlds that differ in fields -/

namespace World

variable {w w₁ w' v v₁ v' : World P} {t : TypeId}

/-- The worlds have the same registries, and the same types up to what these record as fields. -/
structure SameButFields (w v : World P) : Prop extends w.Matches v where
  typeAt : ∀ t, ∃ fields, v.typeAt t = { w.typeAt t with fields }

theorem SameButFields.sameText (h : w.SameButFields v) (t : TypeId) :
    w.SameText v (.named t) (.named t) := by
  obtain ⟨fields, htype⟩ := h.typeAt t
  rw [SameText, typeText, typeText, htype]

theorem SameButFields.sameNames (h : w.SameButFields v) : w.SameNames v 0 := by
  refine ⟨fun t ht ↦ absurd ht t.not_lt_zero, fun id name ↦ ?_⟩
  rw [h.toMatches.lookup_eq]
  exact congrArg (Option.map · (w.lookup id name)) (funext h.sameText)

/-- A type that is the same in both worlds shows the same fields if the producers of its layers
do. -/
theorem SameButFields.shownFields_eq {σ : Type} {outside : Outside P σ} (h : w.SameButFields v)
    (hsame : v.typeAt t = w.typeAt t)
    (hshows : ∀ layer ∈ (w.typeAt t).fields, outside.ShowsSame w v layer) (s : σ) :
    w.shownFields outside t s = v.shownFields outside t s := by
  refine DocumentTypes.shownFields_eq ?_ s
  rw [hsame]
  exact List.forall₂_same.mpr fun layer hlayer ↦
    sameLayer_of_named h.sameNames (h.sameText t) (fun u _ ↦ h.sameText u) (hshows layer hlayer)

theorem SameButFields.of_inStep (h : w.SameButFields v) (hstep : InStep w w' v v') :
    w'.SameButFields v' := by
  refine ⟨hstep.matches h.toMatches, fun t ↦ ?_⟩
  by_cases ht : t < w.nextType
  · have ht' : t < v.types.size := ht.trans_eq h.nextType.symm
    obtain ⟨added, hw', hv', -⟩ := hstep
    obtain ⟨fields, htype⟩ := h.typeAt t
    refine ⟨fields, ?_⟩
    rw [World.typeAt, World.typeAt, hw', hv', Array.getElem?_append_left ht,
      Array.getElem?_append_left ht']
    exact htype
  · exact ⟨_, hstep.typeAt_eq h.toMatches (not_lt.mp ht)⟩

theorem typeAt_of_push {type : GeneratedType P} (h : w'.types = w.types.push type) (t : TypeId) :
    w'.typeAt t = if t = w.nextType then type else w.typeAt t := by
  rw [typeAt, h, Array.getElem?_push, typeAt, nextType]
  split <;> rfl

end World

namespace BuildRequest.BuiltInStep

variable {extend props : FieldSource (DeferredMap P)} {result : Except BuildError TypeId}
  {w w' v v' : World P} {t : TypeId}

theorem sameButFields (h : request.BuiltInStep extend props result w w' v v')
    (hsame : w.SameButFields v) : w'.SameButFields v' := by
  obtain ⟨layers, w₁, v₁, hstep, -, hpushed, hpushed', hregistries⟩ := h
  have hsame₁ := hsame.of_inStep hstep
  refine ⟨⟨hregistries, ?_⟩, fun t ↦ ?_⟩
  · have hsize : v₁.types.size = w₁.types.size := hsame₁.nextType
    rw [nextType, nextType, hpushed, hpushed', Array.size_push, Array.size_push, hsize]
  · rw [typeAt_of_push hpushed, typeAt_of_push hpushed', hsame₁.nextType]
    by_cases ht : t = w₁.nextType
    · rw [if_pos ht, if_pos ht]
      exact ⟨_, rfl⟩
    · rw [if_neg ht, if_neg ht]
      exact hsame₁.typeAt t

/-- The new types are the same, apart from the requested one. -/
theorem typeAt_eq_or (h : request.BuiltInStep extend props result w w' v v')
    (hmatch : w.Matches v) (ht : w.nextType ≤ t) :
    v'.typeAt t = w'.typeAt t ∨ (w'.typeAt t).name = request.name := by
  obtain ⟨layers, w₁, v₁, hstep, -, hpushed, hpushed', -⟩ := h
  rw [typeAt_of_push hpushed, typeAt_of_push hpushed', (hstep.matches hmatch).nextType]
  by_cases hlast : t = w₁.nextType
  · rw [if_pos hlast, if_pos hlast]
    exact Or.inr rfl
  · rw [if_neg hlast, if_neg hlast]
    exact Or.inl (hstep.typeAt_eq hmatch ht)

/-- The requested type has the overrides of either request on the same layers. -/
theorem exists_layers (h : request.BuiltInStep extend props result w w' v v')
    (hmatch : w.Matches v) (hresult : result = .ok t) :
    ∃ layers, w'.typeAt t = request.type layers ∧
      v'.typeAt t = (request.withOverrides extend props).type layers := by
  obtain ⟨layers, w₁, v₁, hstep, hlast, hpushed, hpushed', -⟩ := h
  obtain rfl : t = w₁.nextType := Except.ok.inj (hresult.symm.trans hlast)
  refine ⟨layers, ?_, ?_⟩
  · rw [typeAt_of_push hpushed, if_pos rfl]
  · rw [typeAt_of_push hpushed', (hstep.matches hmatch).nextType, if_pos rfl]

end BuildRequest.BuiltInStep

theorem FixedLayer.showsSame {σ : Type} {layer : FieldLayer (DeferredField P) (DeferredMap P)}
    (h : FixedLayer registry layer) (outside : Outside P σ) (w v : World P) :
    outside.ShowsSame w v layer := by
  cases h with
  | field | reference | itself => trivial
  | merge hsource =>
    cases hsource with
    | ready | typeMap => trivial

/-- A type that a build registers under another name than the requested one is a new type with fixed
layers, and has this name: only the requested type has overrides from outside. -/
theorem nested_of_newly_registered {w w' : World P} {result : Except BuildError TypeId}
    {name : String} {t : TypeId} (hheld : w.HasRegistry registry)
    (hbuild : w.build heap registry request = (result, w'))
    (hnew : w.lookup registry name = none) (hlookup : w'.lookup registry name = some t)
    (hother : name ≠ request.name) :
    w.nextType ≤ t ∧ (w'.typeAt t).name = name ∧
      ∀ layer ∈ (w'.typeAt t).fields, FixedLayer registry layer := by
  have hend : (Call.run heap registry ⟨[], request, w⟩).2 = w' := congrArg Prod.snd hbuild
  rw [← hend] at hlookup
  rcases Call.generated_of_lookup ⟨[], request, w⟩ hheld hlookup with
    hbefore | ⟨schema, hgenerated⟩
  · exact absurd (hnew.symm.trans hbefore) (by simp)
  obtain ⟨r, hname, -, -, hoverrides, hfulfils⟩ := hgenerated.fulfils hheld hbuild
  obtain ⟨c, hreaches, -, -, hgenerates⟩ := hgenerated
  have hstart := Call.Reaches.hasRegistry_world hheld hreaches
  refine ⟨(Call.Reaches.later_world hheld hreaches).nextType_le.trans
    (hgenerates.nextType_le hstart), hfulfils.name_eq.trans hname, ?_⟩
  rcases hoverrides with rfl | ⟨hextend, hprops⟩
  · exact absurd hname.symm hother
  · exact hfulfils.fixed (hextend ▸ .ready ∅) (hprops ▸ .ready ∅)

/-! ### Builds on a workbench -/

namespace Workbench

/-- The overrides of the step are recorded, where it has any. -/
def BuildStep.RecordsOverrides (step : BuildStep) : Prop :=
  ∀ source, step.extend = some source ∨ step.props = some source →
    ∃ fields, source = .recorded fields

theorem readSource_of_recorded (b : Workbench) {source : Option WrittenSource}
    (h : ∀ written, source = some written → ∃ fields, written = .recorded fields) (desk : Desk) :
    ∃ fields, b.readSource source desk = (.ok fields, desk) := by
  cases source with
  | none => exact ⟨_, rfl⟩
  | some written =>
    obtain ⟨fields, rfl⟩ := h written rfl
    exact ⟨_, rfl⟩

/-- Building counts nothing. -/
theorem counters_runBuild (b : Workbench) {step : BuildStep} (h : step.RecordsOverrides) :
    (b.runBuild step).2.desk.counters = b.desk.counters := by
  unfold runBuild withClass
  cases ClassKind.ofName step.className with
  | error e => rfl
  | ok kind =>
    dsimp only
    unfold withRegistry
    cases b.registryOf step.handle with
    | none => rfl
    | some registry =>
      dsimp only
      cases b.schemas.names.lookup? step.schema with
      | none => rfl
      | some schema =>
        obtain ⟨extend, hextend⟩ := b.readSource_of_recorded
          (fun written hwritten ↦ h written (Or.inl hwritten)) b.desk
        obtain ⟨props, hprops⟩ := b.readSource_of_recorded
          (fun written hwritten ↦ h written (Or.inr hwritten)) b.desk
        simp only [onDesk, hextend, hprops]
        split <;> rfl

end Workbench

/-- Overrides are inert until the fields are evaluated. In worlds with the same registries, and the
same types up to what these record as fields, builds of requests that differ in their overrides have
the same result and leave worlds that are the same in this sense: the same names are registered, in
the same order, for types of the same name, description and class. The types that existed are left
as they are. The new types other than the requested one are the same, and show the same fields or
the same error; so does any other type that both worlds have, if the producers of its layers do. The
requested type, when it is new, records either overrides on the same layers. So whatever is recorded
as deferred, in the request or in the types that exist, has no part in the build; and building on a
workbench, with overrides that are recorded, counts nothing. -/
theorem overrides_inert {w v : World P} (hheld : w.HasRegistry registry)
    (hsame : w.SameButFields v) (request : BuildRequest P)
    (extend props : FieldSource (DeferredMap P)) :
    (∃ result w' v', w.build heap registry request = (result, w') ∧
      v.build heap registry (request.withOverrides extend props) = (result, v') ∧
      w'.SameButFields v' ∧
      (∀ t < w.nextType, w'.typeAt t = w.typeAt t ∧ v'.typeAt t = v.typeAt t) ∧
      (∀ name t, w.lookup registry name = none → w'.lookup registry name = some t →
        name ≠ request.name → v'.typeAt t = w'.typeAt t ∧
          ∀ (σ : Type) (outside : Outside P σ) s,
            w'.shownFields outside t s = v'.shownFields outside t s) ∧
      (∀ t, v'.typeAt t = w'.typeAt t → ∀ (σ : Type) (outside : Outside P σ),
        (∀ layer ∈ (w'.typeAt t).fields, outside.ShowsSame w' v' layer) →
          ∀ s, w'.shownFields outside t s = v'.shownFields outside t s) ∧
      ∀ t, result = .ok t → w.lookup registry request.name = none →
        ∃ layers, w'.typeAt t = request.type layers ∧
          v'.typeAt t = (request.withOverrides extend props).type layers) ∧
    ∀ (b : Workbench) (step : Workbench.BuildStep), step.RecordsOverrides →
      (b.take (.build step)).2.desk.counters = b.desk.counters := by
  refine ⟨?_, fun b step hstep ↦ b.counters_runBuild hstep⟩
  obtain ⟨result, w', v', hw, hv, hresult⟩ :=
    exists_build_withOverrides heap registry request extend props hsame.toMatches
  have hheld' : v.HasRegistry registry := by
    rw [HasRegistry, registry?_eq, hsame.registries]
    exact hheld
  have hends : w'.SameButFields v' :=
    hresult.elim (fun h ↦ hsame.of_inStep h.1) fun h ↦ h.sameButFields hsame
  refine ⟨result, w', v', hw, hv, hends, fun t ht ↦ ⟨?_, ?_⟩, fun name t hnew hlookup hother ↦ ?_,
    fun t heq σ outside hshows s ↦ hends.shownFields_eq heq hshows s, fun t ht hnew ↦ ?_⟩
  · exact (later_build hheld hw).1.typeAt ht
  · exact (later_build hheld' hv).1.typeAt (ht.trans_eq hsame.nextType.symm)
  · obtain ⟨ht, hname, hfixed⟩ := nested_of_newly_registered hheld hw hnew hlookup hother
    have heq : v'.typeAt t = w'.typeAt t := by
      rcases hresult with ⟨hstep, -⟩ | hbuilt
      · exact hstep.typeAt_eq hsame.toMatches ht
      · exact (hbuilt.typeAt_eq_or hsame.toMatches ht).resolve_right fun h ↦
          hother (hname.symm.trans h)
    exact ⟨heq, fun σ outside s ↦ hends.shownFields_eq heq
      (fun layer hlayer ↦ (hfixed layer hlayer).showsSame outside w' v') s⟩
  · rcases hresult with ⟨-, hfound⟩ | hbuilt
    · exact absurd (hnew.symm.trans (hfound t ht)) (by simp)
    · exact hbuilt.exists_layers hsame.toMatches ht

/-- A registry of clocks, whose time is left to the term. -/
def clockWorld (time : Workbench.Term) : Workbench.Types :=
  ((RegistryUse.register "Clock" 0).run 0 (World.empty.addRegistry.addType
    ⟨"Clock", none, .object, [.deferred "time" (.custom (⟨time, none⟩ : Workbench.FieldTerm))]⟩)).2

/-- The animals without their owners, with their age, which is left to the term. -/
def agedRequest (age : Workbench.Term) : BuildRequest Workbench.producers where
  name := "Animal"
  description := none
  classKind := .object
  schema := 0
  exclude := ["owner"]
  extend := .deferred (.custom ([("age", ⟨age, none⟩)] : Workbench.MapTerm))
  props := .ready ∅

def clockBench : Workbench :=
  { Workbench.empty with
    types := clockWorld (.count "clock")
    schemas := ⟨animalHeap, .ofList [("animals", 0)]⟩
    handles := .ofList [("zoo", 0)] }

/-- The step that builds the animals, with a recorded age that counts. -/
def agedStep : Workbench.BuildStep where
  handle := "zoo"
  name := "Animal"
  className := "object"
  schema := "animals"
  label := "animal"
  description := none
  exclude := ["owner"]
  extend := some (.recorded [("age", ⟨.count "ages", none⟩)])
  props := none

theorem sameButFields_clockWorld (time time' : Workbench.Term) :
    (clockWorld time).SameButFields (clockWorld time') := by
  refine ⟨⟨rfl, rfl⟩, fun t ↦ ?_⟩
  cases t with
  | zero => exact ⟨_, rfl⟩
  | succ t => exact ⟨_, rfl⟩

/-- Ages and clocks that count and ones that fail are built alike, and nothing has been counted or
has failed then; the animals show the difference. -/
theorem overrides_inert_animal :
    (clockWorld (.count "clock")).HasRegistry 0 ∧
    (clockWorld (.count "clock")).SameButFields (clockWorld (.fail "clock")) ∧
    agedStep.RecordsOverrides ∧
    (clockBench.take (.build agedStep)).2.desk.counters = ∅ ∧
    ∃ w' v', (clockWorld (.count "clock")).build animalHeap 0 (agedRequest (.count "ages")) =
        (.ok 2, w') ∧
      (clockWorld (.fail "clock")).build animalHeap 0 (agedRequest (.fail "age")) = (.ok 2, v') ∧
      w'.SameButFields v' ∧ (w'.registryAt 0).keys = ["Clock", "Animal_home", "Animal"] ∧
      (∀ desk, w'.shownFields Workbench.outside 1 desk = v'.shownFields Workbench.outside 1 desk) ∧
      w'.shownFields Workbench.outside 2 ⟨∅, ∅⟩ = .ok [("name", "String"),
        ("home", "Animal_home"), ("young", "[Animal]"), ("age", "Int")] ∧
      v'.shownFields Workbench.outside 2 ⟨∅, ∅⟩ = .error (.unknownPrimitiveKind "age") := by
  have hheld : (clockWorld (.count "clock")).HasRegistry 0 := by decide
  have hsame := sameButFields_clockWorld (.count "clock") (.fail "clock")
  have hrecords : agedStep.RecordsOverrides := by
    rintro source (h | h)
    · exact ⟨_, (Option.some.inj h).symm⟩
    · exact absurd h (by simp [agedStep])
  obtain ⟨⟨result, w', v', hw, hv, hends, -, hnested, -, -⟩, hcounters⟩ :=
    @overrides_inert _ animalHeap 0 _ _ hheld hsame (agedRequest (.count "ages"))
      (agedRequest (.fail "age")).extend (.ready ∅)
  obtain rfl : ((clockWorld (.count "clock")).build animalHeap 0
    (agedRequest (.count "ages"))).2 = w' := congrArg Prod.snd hw
  obtain rfl : ((clockWorld (.fail "clock")).build animalHeap 0
    (agedRequest (.fail "age"))).2 = v' := congrArg Prod.snd hv
  obtain rfl : Except.ok 2 = result := by
    refine Eq.trans ?_ (congrArg Prod.fst hw)
    decide +kernel
  refine ⟨hheld, hsame, hrecords, hcounters clockBench agedStep hrecords, _, _, hw, hv, hends,
    by decide +kernel, fun desk ↦ ?_, by decide +kernel, by with_unfolding_all rfl⟩
  exact (hnested "Animal_home" 1 (by decide +kernel) (by decide +kernel) (by decide)).2 _ _ desk

end DocumentTypes

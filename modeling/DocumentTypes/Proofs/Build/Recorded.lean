import DocumentTypes.Proofs.Build.Growth
import Mathlib.Data.List.Forall2

/-!
What a built type records. Each path that is not excluded becomes the layer that its descriptor
asks for (`World.Records`), with the type that the registry holds under the nested name where the
path embeds another schema. A type that was built when its name was not in use is registered under
its name and records the paths of the requested schema in order, followed by the overrides
(`fulfils_of_buildWithin`), and it does so in every later world that holds the registry
(`World.Fulfils.later`).
-/

set_option autoImplicit false

namespace DocumentTypes

variable {P : Producers} {heap : SchemaHeap} {registry : RegistryId} {ancestors : Lineage}
  {request : BuildRequest P}

/-- In lists that are related item by item, each item of the first has a partner in the second. -/
theorem exists_partner_of_mem {α β : Type} {R : α → β → Prop} {items : List α} {partners : List β}
    (h : List.Forall₂ R items partners) {a : α} (ha : a ∈ items) : ∃ b ∈ partners, R a b := by
  induction h with
  | nil => exact absurd ha List.not_mem_nil
  | cons hpair _ ih =>
    rcases List.mem_cons.mp ha with rfl | hrest
    · exact ⟨_, List.mem_cons_self, hpair⟩
    · obtain ⟨b, hmem, hrelated⟩ := ih hrest
      exact ⟨b, List.mem_cons_of_mem _ hmem, hrelated⟩

/-- A requested type has its generated layers, and then its overrides. -/
theorem BuildRequest.mem_fields_type {layers : FieldThunk (DeferredField P) (DeferredMap P)}
    {layer : FieldLayer (DeferredField P) (DeferredMap P)} :
    layer ∈ (request.type layers).fields ↔
      layer ∈ layers ∨ layer = .merge request.extend ∨ layer = .merge request.props := by
  simp [BuildRequest.type, FieldThunk.merge]

namespace World

variable {w w' : World P} {name : String} {schema : SchemaId}

/-- The layer that a path of `schema` becomes in the type `name`. -/
inductive Records (w : World P) (registry : RegistryId) (name : String) (schema : SchemaId) :
    String × PathDescriptor SchemaLink → FieldLayer (DeferredField P) (DeferredMap P) → Prop
  | reference (field typeName : String) (isArray : Bool) :
      Records w registry name schema (field, ⟨.reference typeName, isArray⟩)
        (.deferred field (.reference registry typeName name))
  | primitive (field : String) (isArray : Bool) {kind : PrimitiveKind} {scalar : Scalar}
      (hscalar : kind.scalar = .ok scalar) :
      Records w registry name schema (field, ⟨.primitive kind, isArray⟩)
        (.field field (.ofType (.listIf isArray (.scalar scalar))))
  | itself (field : String) (isArray : Bool) {link : SchemaLink} (hself : link.target = schema) :
      Records w registry name schema (field, ⟨.embedded link, isArray⟩)
        (.deferred field (.itself isArray name))
  | nested (field : String) (isArray : Bool) {link : SchemaLink} {t : TypeId}
      (hother : link.target ≠ schema)
      (hlookup : w.lookup registry (subFieldName name field) = some t) :
      Records w registry name schema (field, ⟨.embedded link, isArray⟩)
        (.field field (.ofType (.listIf isArray (.named t))))

theorem Records.later {path : String × PathDescriptor SchemaLink}
    {layer : FieldLayer (DeferredField P) (DeferredMap P)}
    (h : w.Records registry name schema path layer) (hlater : Later w w')
    (halive : w'.HasRegistry registry) : w'.Records registry name schema path layer := by
  cases h with
  | reference field typeName isArray => exact .reference field typeName isArray
  | primitive field isArray hscalar => exact .primitive field isArray hscalar
  | itself field isArray hself => exact .itself field isArray hself
  | nested field isArray hother hlookup =>
    exact .nested field isArray hother (hlater.lookup halive hlookup)

/-- A path that embeds another schema becomes a field with the type that is registered under the
nested name. -/
theorem Records.of_otherSchema {field : String} {d : PathDescriptor SchemaLink}
    {layer : FieldLayer (DeferredField P) (DeferredMap P)} {target : SchemaId}
    (h : w.Records registry name schema (field, d) layer)
    (hother : d.otherSchema? schema = some target) :
    ∃ u, w.lookup registry (subFieldName name field) = some u ∧
      layer = .field field (.ofType (.listIf d.isArray (.named u))) := by
  obtain ⟨hne, link, hlink, rfl⟩ := PathDescriptor.otherSchema?_eq_some hother
  cases h with
  | reference field typeName isArray => exact absurd hlink (by simp)
  | primitive field isArray hscalar => exact absurd hlink (by simp)
  | itself field isArray hself =>
    obtain rfl := Element.embedded.inj hlink
    exact absurd hself hne
  | nested field isArray hother hlookup => exact ⟨_, hlookup, rfl⟩

/-- The type is the one that the request asks for: it is registered under the requested name and
records the paths of the requested schema that are not excluded, in order, and the overrides. -/
structure Fulfils (w : World P) (heap : SchemaHeap) (registry : RegistryId)
    (request : BuildRequest P) (t : TypeId) : Prop where
  registered : w.lookup registry request.name = some t
  lt_nextType : t < w.nextType
  recorded : ∃ layers, w.typeAt t = request.type layers ∧
    List.Forall₂ (w.Records registry request.name request.schema)
      (heap.kept request.exclude request.schema) layers

theorem Fulfils.later {t : TypeId} (h : w.Fulfils heap registry request t) (hlater : Later w w')
    (halive : w'.HasRegistry registry) : w'.Fulfils heap registry request t := by
  obtain ⟨layers, htype, hlayers⟩ := h.recorded
  refine ⟨hlater.lookup halive h.registered, h.lt_nextType.trans_le hlater.nextType_le,
    layers, ?_, ?_⟩
  · rw [hlater.typeAt h.lt_nextType, htype]
  · exact hlayers.imp fun _ _ hlayer ↦ hlayer.later hlater halive

theorem Fulfils.name_eq {t : TypeId} (h : w.Fulfils heap registry request t) :
    (w.typeAt t).name = request.name := by
  obtain ⟨layers, htype, -⟩ := h.recorded
  rw [htype, BuildRequest.type]

/-- Where the requested schema embeds another one, the type has a field with the type that is
registered under the nested name. -/
theorem Fulfils.nested {t : TypeId} (h : w.Fulfils heap registry request t) {field : String}
    {d : PathDescriptor SchemaLink} {target : SchemaId}
    (hkept : (field, d) ∈ heap.kept request.exclude request.schema)
    (hother : d.otherSchema? request.schema = some target) :
    ∃ u, w.lookup registry (subFieldName request.name field) = some u ∧
      .field field (.ofType (.listIf d.isArray (.named u))) ∈ (w.typeAt t).fields := by
  obtain ⟨layers, htype, hlayers⟩ := h.recorded
  obtain ⟨layer, hlayer, hrecords⟩ := exists_partner_of_mem hlayers hkept
  obtain ⟨u, hlookup, rfl⟩ := hrecords.of_otherSchema hother
  refine ⟨u, hlookup, ?_⟩
  rw [htype]
  exact List.mem_append_left _ (List.mem_append_left _ hlayer)

/-- Construction registers the type under its name and changes no other name. -/
theorem lookup_construct {type : GeneratedType P} {t : TypeId} (halive : w.HasRegistry registry)
    (h : w.construct registry type = (.ok t, w')) (name : String) :
    w'.lookup registry name = if name = type.name then some t else w.lookup registry name := by
  obtain ⟨rfl, hregister⟩ := construct_eq_ok h
  rw [lookup, registryAt_register (w := w.addType type) halive hregister, OrderedMap.lookup?_insert]
  rfl

/-- A constructed type gets the next place, and is what was asked to be constructed. -/
theorem typeAt_construct {type : GeneratedType P} {t : TypeId}
    (h : w.construct registry type = (.ok t, w')) : t < w'.nextType ∧ w'.typeAt t = type := by
  obtain ⟨rfl, hregister⟩ := construct_eq_ok h
  rw [(register_eq_ok hregister).2]
  constructor
  · rw [nextType, nextType, addType, Array.size_push]
    exact Nat.lt_succ_self _
  · exact typeAt_addType_nextType w type

end World

open World

/-- What a build gives is registered under the requested name afterwards. -/
theorem lookup_buildWithin {w w' : World P} {t : TypeId} (halive : w.HasRegistry registry)
    (h : buildWithin heap registry ancestors request w = (.ok t, w')) :
    w'.lookup registry request.name = some t := by
  obtain ⟨-, -, ⟨hlookup, rfl⟩ | ⟨-, layers, w₁, hwalk, hconstruct⟩⟩ := buildWithin_eq_ok h
  · exact hlookup
  · rw [lookup_construct ((walk_grows_nested hwalk).hasRegistry halive) hconstruct]
    exact if_pos rfl

/-- A path that is passed becomes the layer that its descriptor asks for. -/
theorem records_pathLayer {w w' : World P} {field : String} {d : PathDescriptor SchemaLink}
    {layer : FieldLayer (DeferredField P) (DeferredMap P)} (halive : w.HasRegistry registry)
    (h : pathLayer request registry (nestedBuild heap registry ancestors request) field d w =
      (.ok layer, w')) :
    w'.Records registry request.name request.schema (field, d) layer := by
  obtain ⟨element, isArray⟩ := d
  cases element with
  | reference typeName =>
    obtain ⟨hlayer, -⟩ := Prod.mk.inj h
    rw [← Except.ok.inj hlayer]
    exact .reference field typeName isArray
  | primitive kind =>
    cases hscalar : kind.scalar with
    | error e =>
      simp only [pathLayer, hscalar] at h
      exact absurd h (by simp)
    | ok scalar =>
      simp only [pathLayer, hscalar, Prod.mk.injEq, Except.ok.injEq] at h
      rw [← h.1]
      exact .primitive field isArray hscalar
  | embedded link =>
    by_cases hself : link.target = request.schema
    · simp only [pathLayer, dif_pos hself, Prod.mk.injEq, Except.ok.injEq] at h
      rw [← h.1]
      exact .itself field isArray hself
    · simp only [pathLayer, dif_neg hself] at h
      split at h
      · exact absurd h (by simp)
      · next t w₁ hnested =>
        obtain ⟨hlayer, rfl⟩ := Prod.mk.inj h
        rw [← Except.ok.inj hlayer]
        rcases nestedBuild_cases hnested with ⟨-, -, hcycle⟩ | ⟨-, -, hdead⟩ | ⟨-, -, hbuild⟩
        · exact absurd hcycle (by simp)
        · exact absurd hdead (by simp)
        · exact .nested field isArray hself (lookup_buildWithin halive hbuild)

/-- A walk that passes all its paths records the layers that they ask for. What an early path finds
registered is still registered at the end. -/
theorem records_walk {paths : List (String × PathDescriptor SchemaLink)} {w w' : World P}
    {layers : FieldThunk (DeferredField P) (DeferredMap P)}
    (hkept : ∀ path ∈ paths, path.1 ∉ request.exclude) (halive : w.HasRegistry registry)
    (h : walk request registry (nestedBuild heap registry ancestors request) paths w =
      (.ok layers, w')) :
    List.Forall₂ (w'.Records registry request.name request.schema) paths layers := by
  induction paths generalizing w layers with
  | nil =>
    obtain ⟨hlayers, -⟩ := Prod.mk.inj h
    rw [← Except.ok.inj hlayers]
    exact List.Forall₂.nil
  | cons path rest ih =>
    obtain ⟨field, d⟩ := path
    obtain ⟨hfield, hrest⟩ := List.forall_mem_cons.mp hkept
    obtain ⟨layer, w₁, more, hlayer, hmore, rfl⟩ := walk_cons_eq_ok hfield h
    have hfirst := (pathLayer_grows_nested hlayer).hasRegistry halive
    have hothers := walk_grows_nested hmore
    exact .cons ((records_pathLayer halive hlayer).later (hothers.later hfirst)
      (hothers.hasRegistry hfirst)) (ih hrest hfirst hmore)

/-- A type that is built when its name is not in use is the one that the request asks for. -/
theorem fulfils_of_buildWithin {w w' : World P} {t : TypeId} (halive : w.HasRegistry registry)
    (hnew : w.lookup registry request.name = none)
    (h : buildWithin heap registry ancestors request w = (.ok t, w')) :
    w'.Fulfils heap registry request t := by
  have hregistered := lookup_buildWithin halive h
  obtain ⟨-, -, ⟨hlookup, -⟩ | ⟨-, layers, w₁, hwalk, hconstruct⟩⟩ := buildWithin_eq_ok h
  · exact absurd (hnew.symm.trans hlookup) (by simp)
  · have hheld := (walk_grows_nested hwalk).hasRegistry halive
    have hkept : ∀ path ∈ heap.kept request.exclude request.schema, path.1 ∉ request.exclude :=
      fun _ hpath ↦ (SchemaHeap.mem_kept.mp hpath).2
    have hlayers := records_walk hkept halive hwalk
    obtain ⟨hlt, htype⟩ := typeAt_construct hconstruct
    refine ⟨hregistered, hlt, layers, htype, hlayers.imp fun _ _ hlayer ↦ ?_⟩
    exact hlayer.later (later_construct hheld hconstruct) (hasRegistry_construct hheld hconstruct)

/-! ### What builds keep -/

/-- A walk keeps what the nested builds keep. -/
theorem walk_keeps {I : World P → Prop} {request : BuildRequest P}
    {nested : (field : String) → (target : SchemaId) → target ≠ request.schema → World P →
      Except BuildError TypeId × World P}
    (hnested : ∀ field target hself w, I w → I (nested field target hself w).2)
    (paths : List (String × PathDescriptor SchemaLink)) (w : World P) (hw : I w) :
    I (walk request registry nested paths w).2 := by
  have hlayer : ∀ field d w result w', I w →
      pathLayer request registry nested field d w = (result, w') → I w' := by
    intro field d w result w' hw h
    rcases pathLayer_cases h with ⟨-, rfl, -⟩ | ⟨target, hself, -, ⟨e, hrun, -⟩ | ⟨type, hrun, -⟩⟩
    · exact hw
    · have hkept := hnested field target hself w hw
      rwa [hrun] at hkept
    · have hkept := hnested field target hself w hw
      rwa [hrun] at hkept
  induction paths generalizing w with
  | nil => exact hw
  | cons path rest ih =>
    obtain ⟨field, d⟩ := path
    by_cases hexclude : field ∈ request.exclude
    · rw [walk_cons_of_mem hexclude]
      exact ih w hw
    · rcases hrun : pathLayer request registry nested field d w with ⟨e | layer, w₁⟩
      · rw [walk_cons_of_error hexclude hrun]
        exact hlayer _ _ _ _ _ hw hrun
      · have hrest := ih w₁ (hlayer _ _ _ _ _ hw hrun)
        rw [walk_cons_of_ok hexclude hrun]
        rcases hmore : walk request registry nested rest w₁ with ⟨e | layers, w₂⟩
        · rwa [hmore] at hrest
        · rwa [hmore] at hrest

/-- What every construction of a requested type keeps, whose layers are recorded, a build keeps,
also when it fails. `Q` is what the requests have in common. -/
theorem buildWithin_keeps {I : World P → Prop} {Q : BuildRequest P → Prop}
    (hnested : ∀ r field target, Q (BuildRequest.nested r field target))
    (hconstruct : ∀ {r : BuildRequest P} {layers : FieldThunk (DeferredField P) (DeferredMap P)}
      {w w' : World P} {t : TypeId}, Q r → w.HasRegistry registry → I w →
      List.Forall₂ (w.Records registry r.name r.schema) (heap.kept r.exclude r.schema) layers →
      w.construct registry (r.type layers) = (.ok t, w') → I w')
    (ancestors : Lineage) (request : BuildRequest P) (w : World P) (hrequest : Q request)
    (hheld : w.HasRegistry registry) (hw : I w) :
    I (buildWithin heap registry ancestors request w).2 := by
  induction ancestors, request, w using nested_induction heap with
  | step ancestors request w ih =>
    have hbelow : ∀ field target (hself : target ≠ request.schema) (w : World P),
        (w.HasRegistry registry ∧ I w) →
        (nestedBuild heap registry ancestors request field target hself w).2.HasRegistry registry ∧
          I (nestedBuild heap registry ancestors request field target hself w).2 := by
      rintro field target hself w ⟨hheld, hw⟩
      rcases hrun : nestedBuild heap registry ancestors request field target hself w with
        ⟨result, w'⟩
      rcases nestedBuild_cases hrun with ⟨-, rfl, -⟩ | ⟨-, rfl, -⟩ | ⟨hcycle, halive, hbuild⟩
      · exact ⟨hheld, hw⟩
      · exact ⟨hheld, hw⟩
      · have hgrows : Grows registry (IsOwnName (request.nested field target)) w
            (buildWithin heap registry (ancestors ++ [(request.name, request.schema)])
              (request.nested field target) w).2 := buildWithin_grows heap _ _ w
        have hkept := ih field target w hself hcycle halive (hnested request field target) hheld hw
        rw [hbuild] at hgrows hkept
        exact ⟨hgrows.hasRegistry hheld, hkept⟩
    have hwalk : (fun w : World P ↦ w.HasRegistry registry ∧ I w)
        (walk request registry (nestedBuild heap registry ancestors request)
          (heap.kept request.exclude request.schema) w).2 :=
      walk_keeps hbelow _ w ⟨hheld, hw⟩
    rcases hrun : buildWithin heap registry ancestors request w with ⟨result, w'⟩
    rcases buildWithin_cases hrun with ⟨-, rfl, -⟩ | ⟨t, -, rfl, -⟩ |
      ⟨-, -, ⟨e, herror, -⟩ | ⟨layers, w₁, hok, hlast⟩⟩
    · exact hw
    · exact hw
    · rw [herror] at hwalk
      exact hwalk.2
    · rw [hok] at hwalk
      obtain ⟨hheld₁, hw₁⟩ := hwalk
      cases result with
      | error e =>
        obtain ⟨rfl, -⟩ := construct_eq_error hlast
        exact hw₁
      | ok t =>
        have hkept : ∀ path ∈ heap.kept request.exclude request.schema,
            path.1 ∉ request.exclude := fun _ hpath ↦ (SchemaHeap.mem_kept.mp hpath).2
        exact hconstruct hrequest hheld₁ hw₁ (records_walk hkept hheld hok) hlast

end DocumentTypes

import DocumentTypes.Proofs.Build.Positions
import DocumentTypes.Proofs.Build.WriteOnce

/-!
Types that outlive their registry. What the fields of a type look up can be read off what it
records: the references of its paths, and the names in the type expressions of its overrides, each
with the type that an error names (`FieldLayer.lookups`). For a type that was built these are the
lookups of its request (`World.Fulfils.flatMap_lookups`). Fixed layers that look up nothing are
evaluated to the same fields everywhere (`World.exists_evaluateOnto`). When the registry is gone
every lookup fails, so the first one is the error (`World.evaluateOnto_of_gone`).
-/

set_option autoImplicit false

namespace DocumentTypes

open World

variable {P : Producers} {heap : SchemaHeap} {registry : RegistryId}

/-! ### What is looked up -/

/-- The innermost name, unless it is that of a scalar. -/
def TypeExpr.named? : TypeExpr → Option String
  | .scalar _ => none
  | .list element => element.named?
  | .named name => some name

/-- The name of the type that populates the path, if it is a reference. -/
def PathDescriptor.reference? {L : Type} (d : PathDescriptor L) : Option String :=
  match d.element with
  | .reference typeName => some typeName
  | _ => none

/-- The names that type expressions look up, in order, with the type that an error names. -/
def DeferredMap.lookups : DeferredMap P → List (String × String)
  | .typeMap entries _ typeName => entries.filterMap fun entry ↦ entry.2.named?.map (·, typeName)
  | .custom _ => []

def FieldSource.lookups : FieldSource (DeferredMap P) → List (String × String)
  | .ready _ => []
  | .deferred producer => producer.lookups

/-- The names that a layer looks up, in order, each with the type that an error names. -/
def FieldLayer.lookups : FieldLayer (DeferredField P) (DeferredMap P) → List (String × String)
  | .field _ _ => []
  | .deferred _ (.reference _ name typeName) => [(name, typeName)]
  | .deferred _ _ => []
  | .merge source => source.lookups

/-- The names that the fields of the requested type look up, in order, each with the type that an
error names: for its references, and then for the expressions of its overrides. -/
def BuildRequest.lookups (heap : SchemaHeap) (request : BuildRequest P) : List (String × String) :=
  ((heap.kept request.exclude request.schema).filterMap fun path ↦
    path.2.reference?.map (·, request.name)) ++ request.extend.lookups ++ request.props.lookups

namespace World

variable {w built now : World P} {request : BuildRequest P} {t : TypeId}

/-- A layer that is recorded for a path looks up the reference of the path. -/
theorem Records.lookups_eq {name : String} {schema : SchemaId}
    {path : String × PathDescriptor SchemaLink}
    {layer : FieldLayer (DeferredField P) (DeferredMap P)}
    (h : w.Records registry name schema path layer) :
    layer.lookups = (path.2.reference?.map (·, name)).toList := by
  cases h with
  | reference field typeName isArray => rfl
  | primitive field isArray hscalar => rfl
  | itself field isArray hself => rfl
  | nested field isArray hother hlookup => rfl

/-- A type that fulfils a request looks up what the request does. -/
theorem Fulfils.flatMap_lookups (h : w.Fulfils heap registry request t) :
    (w.typeAt t).fields.flatMap FieldLayer.lookups = request.lookups heap := by
  obtain ⟨layers, htype, hlayers⟩ := h.recorded
  have hpaths : ∀ {paths : List (String × PathDescriptor SchemaLink)}
      {layers : FieldThunk (DeferredField P) (DeferredMap P)},
      List.Forall₂ (w.Records registry request.name request.schema) paths layers →
      layers.flatMap FieldLayer.lookups =
        paths.filterMap fun path ↦ path.2.reference?.map (·, request.name) := by
    intro paths layers hrecorded
    induction hrecorded with
    | nil => rfl
    | cons hlayer _ ih =>
      rw [List.flatMap_cons, List.filterMap_cons, hlayer.lookups_eq, ih]
      cases Option.map (·, request.name) _ with
      | none => rfl
      | some lookup => rfl
  rw [htype, BuildRequest.type, FieldThunk.merge, FieldThunk.merge, List.flatMap_append,
    List.flatMap_append, hpaths hlayers, List.flatMap_singleton, List.flatMap_singleton]
  rfl

/-! ### Evaluation without lookups -/

/-- An expression that looks up nothing is resolved in the same way everywhere. -/
theorem exists_resolve {expr : TypeExpr} (h : expr.named? = none) (registry : RegistryId)
    (typeName : String) :
    ∃ type, ∀ w : World P, w.resolve registry typeName expr = .ok type := by
  induction expr with
  | scalar s => exact ⟨.scalar s, fun w ↦ rfl⟩
  | named name => exact absurd h (by simp [TypeExpr.named?])
  | list element ih =>
    obtain ⟨type, htype⟩ := ih h
    exact ⟨.list type, fun w ↦ by rw [resolve, htype w]; rfl⟩

theorem exists_resolveAll {entries : List (String × TypeExpr)} {typeName : String}
    (h : (DeferredMap.typeMap entries registry typeName : DeferredMap P).lookups = []) :
    ∃ pairs, ∀ w : World P, w.resolveAll registry typeName entries = .ok pairs := by
  induction entries with
  | nil => exact ⟨[], fun w ↦ rfl⟩
  | cons entry rest ih =>
    obtain ⟨field, expr⟩ := entry
    cases hnamed : expr.named? with
    | some name => exact absurd h (by simp [DeferredMap.lookups, hnamed])
    | none =>
      obtain ⟨type, htype⟩ := exists_resolve (P := P) hnamed registry typeName
      obtain ⟨pairs, hpairs⟩ := ih (by simpa [DeferredMap.lookups, hnamed] using h)
      refine ⟨(field, .ofType type) :: pairs, fun w ↦ ?_⟩
      rw [resolveAll, htype w]
      dsimp only
      rw [hpairs w]
      rfl

/-- Fixed overrides that look up nothing are resolved to the same fields everywhere. -/
theorem exists_resolve_source {source : FieldSource (DeferredMap P)}
    (hsource : FixedSource registry source) (h : source.lookups = []) :
    ∃ fields, ∀ (w : World P) (σ : Type) (outside : Outside P σ) (owner : Option TypeId) (s : σ),
      source.resolve (w.runner outside owner) s = (.ok fields, s) := by
  cases hsource with
  | ready fields => exact ⟨fields, fun w σ outside owner s ↦ rfl⟩
  | typeMap entries typeName =>
    obtain ⟨pairs, hpairs⟩ : ∃ pairs, ∀ w : World P,
        w.resolveAll registry typeName entries = .ok pairs := exists_resolveAll h
    refine ⟨.ofList pairs, fun w σ outside owner s ↦ ?_⟩
    simp only [FieldSource.resolve, runner, produceMap, hpairs w, Except.map]

/-- A fixed layer that looks up nothing assigns the same to the fields everywhere. -/
theorem exists_assign {layer : FieldLayer (DeferredField P) (DeferredMap P)}
    (hlayer : FixedLayer registry layer) (h : layer.lookups = []) (t : TypeId) :
    ∃ assign : FieldMap → FieldMap, ∀ (w : World P) (σ : Type) (outside : Outside P σ)
      (fields : FieldMap) (rest : FieldThunk (DeferredField P) (DeferredMap P)) (s : σ),
      FieldThunk.evaluateOnto (w.runner outside (some t)) fields (layer :: rest) s =
        FieldThunk.evaluateOnto (w.runner outside (some t)) (assign fields) rest s := by
  cases hlayer with
  | field field spec => exact ⟨(·.insert field spec), fun w σ outside fields rest s ↦ rfl⟩
  | reference field name typeName => exact absurd h (by simp [FieldLayer.lookups])
  | itself field isArray typeName =>
    exact ⟨(·.insert field (.ofType (.listIf isArray (.named t)))),
      fun w σ outside fields rest s ↦ rfl⟩
  | @merge source hsource =>
    obtain ⟨more, hmore⟩ := exists_resolve_source hsource h
    refine ⟨(·.insertAll more.entries), fun w σ outside fields rest s ↦ ?_⟩
    simp only [FieldThunk.evaluateOnto, hmore w σ outside (some t) s]

/-- Fixed layers that look up nothing are evaluated to the same fields everywhere, whatever
producers from outside do. -/
theorem exists_evaluateOnto {layers : FieldThunk (DeferredField P) (DeferredMap P)}
    (hlayers : ∀ layer ∈ layers, FixedLayer registry layer)
    (h : layers.flatMap FieldLayer.lookups = []) (t : TypeId) (fields : FieldMap) :
    ∃ all, ∀ (w : World P) (σ : Type) (outside : Outside P σ) (s : σ),
      FieldThunk.evaluateOnto (w.runner outside (some t)) fields layers s = (.ok all, s) := by
  induction layers generalizing fields with
  | nil => exact ⟨fields, fun w σ outside s ↦ rfl⟩
  | cons layer rest ih =>
    obtain ⟨hlayer, hrest⟩ := List.forall_mem_cons.mp hlayers
    obtain ⟨hnone, hmore⟩ := List.append_eq_nil_iff.mp (List.flatMap_cons ▸ h)
    obtain ⟨assign, hassign⟩ := exists_assign hlayer hnone t
    obtain ⟨all, hall⟩ := ih hrest hmore (assign fields)
    exact ⟨all, fun w σ outside s ↦ (hassign w σ outside fields rest s).trans (hall w σ outside s)⟩

/-! ### Evaluation without the registry -/

section Gone

variable {σ : Type} {outside : Outside P σ} {owner : Option TypeId} {s : σ}
  {reference typeName : String} {more : List (String × String)}
  (hgone : ¬ now.HasRegistry registry)

include hgone

theorem lookup_of_gone (name : String) : now.lookup registry name = none :=
  lookup_of_empty (registryAt_of_not_hasRegistry hgone) name

theorem resolve_of_gone {expr : TypeExpr} (h : expr.named? = some reference) :
    now.resolve registry typeName expr = .error (.unresolvedReference reference typeName) := by
  induction expr with
  | scalar s => exact absurd h (by simp [TypeExpr.named?])
  | named name =>
    obtain rfl := Option.some.inj h
    rw [resolve, lookup_of_gone hgone]
  | list element ih =>
    rw [resolve, ih h]
    rfl

theorem resolveAll_of_gone {entries : List (String × TypeExpr)} {context : String}
    (h : (DeferredMap.typeMap entries registry context : DeferredMap P).lookups =
      (reference, typeName) :: more) :
    now.resolveAll registry context entries =
      .error (.unresolvedReference reference typeName) := by
  induction entries with
  | nil => exact absurd h (by simp [DeferredMap.lookups])
  | cons entry rest ih =>
    obtain ⟨field, expr⟩ := entry
    cases hnamed : expr.named? with
    | some name =>
      simp only [DeferredMap.lookups, List.filterMap_cons, hnamed, Option.map_some,
        List.cons.injEq, Prod.mk.injEq] at h
      obtain ⟨⟨rfl, rfl⟩, -⟩ := h
      rw [resolveAll, resolve_of_gone hgone hnamed]
    | none =>
      obtain ⟨type, htype⟩ := exists_resolve (P := P) hnamed registry context
      rw [resolveAll, htype now]
      dsimp only
      rw [ih (by simpa [DeferredMap.lookups, hnamed] using h)]
      rfl

/-- A fixed layer that looks up something fails for the first name. -/
theorem evaluateOnto_cons_of_gone {layer : FieldLayer (DeferredField P) (DeferredMap P)}
    (hlayer : FixedLayer registry layer) (h : layer.lookups = (reference, typeName) :: more)
    (fields : FieldMap) (rest : FieldThunk (DeferredField P) (DeferredMap P)) :
    FieldThunk.evaluateOnto (now.runner outside owner) fields (layer :: rest) s =
      (.error (.unresolvedReference reference typeName), s) := by
  cases hlayer with
  | field field spec => exact absurd h (by simp [FieldLayer.lookups])
  | reference field name context =>
    obtain ⟨hlookup, -⟩ := List.cons.inj h
    obtain ⟨rfl, rfl⟩ := Prod.mk.inj hlookup
    simp only [FieldThunk.evaluateOnto, runner, produceField, lookup_of_gone hgone]
  | itself field isArray context => exact absurd h (by simp [FieldLayer.lookups])
  | merge hsource =>
    cases hsource with
    | ready ready => exact absurd h (by simp [FieldLayer.lookups, FieldSource.lookups])
    | typeMap entries context =>
      simp only [FieldThunk.evaluateOnto, FieldSource.resolve, runner, produceMap,
        resolveAll_of_gone hgone h, Except.map]

/-- Fixed layers fail for the first name that they look up. The induction is on the layers: those in
front that look up nothing are passed. -/
theorem evaluateOnto_of_gone {layers : FieldThunk (DeferredField P) (DeferredMap P)}
    (hlayers : ∀ layer ∈ layers, FixedLayer registry layer)
    (h : layers.flatMap FieldLayer.lookups = (reference, typeName) :: more) (t : TypeId)
    (fields : FieldMap) :
    FieldThunk.evaluateOnto (now.runner outside (some t)) fields layers s =
      (.error (.unresolvedReference reference typeName), s) := by
  induction layers generalizing fields with
  | nil => exact absurd h (by simp)
  | cons layer rest ih =>
    obtain ⟨hlayer, hrest⟩ := List.forall_mem_cons.mp hlayers
    rw [List.flatMap_cons] at h
    cases hlookups : layer.lookups with
    | nil =>
      obtain ⟨assign, hassign⟩ := exists_assign hlayer hlookups t
      rw [hlookups, List.nil_append] at h
      rw [hassign, ih hrest h]
    | cons first others =>
      rw [hlookups] at h
      obtain ⟨rfl, -⟩ := List.cons.inj h
      exact evaluateOnto_cons_of_gone hgone hlayer hlookups fields rest

end Gone

end World

/-- The requests nested in one have fixed overrides when it has. -/
theorem BuildRequest.Unfolds.fixed {request r : BuildRequest P} {path : List String}
    (h : request.Unfolds heap path r) (hextend : FixedSource registry request.extend)
    (hprops : FixedSource registry request.props) :
    FixedSource registry r.extend ∧ FixedSource registry r.props := by
  cases h with
  | root => exact ⟨hextend, hprops⟩
  | nested _ hkept hother => exact ⟨.ready ∅, .ready ∅⟩

/-- The requested name is that of no request nested in it. -/
theorem BuildRequest.Unfolds.eq_of_name_eq {request r : BuildRequest P} {path : List String}
    (h : request.Unfolds heap path r) (hname : r.name = request.name) : r = request := by
  cases h with
  | root => rfl
  | @nested path parent field d target habove hkept hother =>
    have hwithin := isWithinName_foldl request.name path
    rw [← habove.name_eq] at hwithin
    rcases hwithin with hsame | hnested
    · exact absurd hname (hsame ▸ (isNestedName_subFieldName parent.name field).ne)
    · exact absurd hname (hnested.trans (isNestedName_subFieldName parent.name field)).ne

/-- Types that are built with fixed overrides, and those nested in them, outlive their registry.
What such a type looks up is known from its request. If that is nothing, its fields are the same in
every later world, with or without the registry. Otherwise they cannot be evaluated once the
registry is gone, and the error is for the first name that is looked up: for the first reference
among the paths that are not excluded, in the name of the type, or for the first named type in the
overrides, in the name that they were made for. -/
theorem fields_after_registry {P : Producers} {heap : SchemaHeap} {registry : RegistryId}
    {request : BuildRequest P} {w built : World P} {result : Except BuildError TypeId}
    (hheld : w.HasRegistry registry) (hextend : FixedSource registry request.extend)
    (hprops : FixedSource registry request.props)
    (hbuild : w.build heap registry request = (result, built)) {name : String} {t : TypeId}
    (hnew : w.lookup registry name = none) (hlookup : built.lookup registry name = some t) :
    ∃ path r, request.Unfolds heap path r ∧ r.name = name ∧
      (name = request.name → r = request) ∧ built.Fulfils heap registry r t ∧
      (r.lookups heap = [] → ∃ fields, ∀ now, Later built now →
        ∀ (σ : Type) (outside : Outside P σ) (s : σ),
          now.fields outside t s = (.ok fields, s)) ∧
      ∀ reference typeName more, r.lookups heap = (reference, typeName) :: more →
        ∀ now, Later built now → ¬ now.HasRegistry registry →
          ∀ (σ : Type) (outside : Outside P σ) (s : σ),
            now.fields outside t s = (.error (.unresolvedReference reference typeName), s) := by
  obtain ⟨path, r, hunfolds, hname, hfulfils⟩ :=
    exists_fulfils_of_newly_registered hheld hbuild hnew hlookup
  obtain ⟨hextend', hprops'⟩ := hunfolds.fixed hextend hprops
  have hlayers := hfulfils.fixed hextend' hprops'
  refine ⟨path, r, hunfolds, hname, ?_, hfulfils, ?_, ?_⟩
  · intro hroot
    exact hunfolds.eq_of_name_eq (hname.trans hroot)
  · intro hnone
    rw [← hfulfils.flatMap_lookups] at hnone
    obtain ⟨fields, hfields⟩ := exists_evaluateOnto hlayers hnone t ∅
    refine ⟨fields, fun now hlater σ outside s ↦ ?_⟩
    rw [World.fields, FieldThunk.evaluate, hlater.typeAt hfulfils.lt_nextType, hfields]
  · intro reference typeName more hfirst now hlater hgone σ outside s
    rw [← hfulfils.flatMap_lookups] at hfirst
    rw [World.fields, FieldThunk.evaluate, hlater.typeAt hfulfils.lt_nextType,
      evaluateOnto_of_gone hgone hlayers hfirst t ∅]

/-- The animals, with overrides that name the keepers, and afterwards a list of guests. -/
def keptRequest : BuildRequest .none :=
  { animalRequest with
    extend := .deferred (.typeMap [("keeper", .named "Keeper")] 0 "Pet")
    props := .deferred (.typeMap [("name", .scalar .id), ("guests", .list (.named "Guest"))] 0
      "Pet") }

/-- The world with the animals that are kept. -/
def keptWorld : World .none :=
  (newWorld.build animalHeap 0 keptRequest).2

/-- Without the registry, the fields of the animals fail for their owners, which are looked up
before the keepers and the guests. The homes keep their fields. -/
theorem fields_after_registry_animal :
    FixedSource 0 keptRequest.extend ∧ FixedSource 0 keptRequest.props ∧
      keptRequest.lookups animalHeap =
        [("Person", "Animal"), ("Keeper", "Pet"), ("Guest", "Pet")] ∧
      ¬ (keptWorld.dropRegistry 0).HasRegistry 0 ∧
      (keptWorld.dropRegistry 0).fields Outside.none 1 () =
        (.error (.unresolvedReference "Person" "Animal"), ()) ∧
      ∃ fields, keptWorld.fields Outside.none 0 () = (.ok fields, ()) ∧
        (keptWorld.dropRegistry 0).fields Outside.none 0 () = (.ok fields, ()) := by
  have hheld : newWorld.HasRegistry 0 := by decide
  have hextend : FixedSource 0 keptRequest.extend := .typeMap _ _
  have hprops : FixedSource 0 keptRequest.props := .typeMap _ _
  have hlookups : keptRequest.lookups animalHeap =
      [("Person", "Animal"), ("Keeper", "Pet"), ("Guest", "Pet")] := by decide
  have hgone : ¬ (keptWorld.dropRegistry 0).HasRegistry 0 := by
    rw [HasRegistry, Bool.not_eq_true]
    decide +kernel
  have hdropped : Later keptWorld (keptWorld.dropRegistry 0) :=
    Relation.ReflTransGen.single (.dropRegistry keptWorld 0)
  have hbuild : newWorld.build animalHeap 0 keptRequest =
      ((newWorld.build animalHeap 0 keptRequest).1, keptWorld) := rfl
  have hanimal : keptWorld.lookup 0 "Animal" = some 1 := by decide +kernel
  have hhome : keptWorld.lookup 0 "Animal_home" = some 0 := by decide +kernel
  obtain ⟨_, r, -, -, hroot, -, -, hfails⟩ :=
    fields_after_registry hheld hextend hprops hbuild (by decide) hanimal
  obtain ⟨_, home, hunfolds, hname, -, -, hstays, -⟩ :=
    fields_after_registry hheld hextend hprops hbuild (by decide) hhome
  have hnone : home.lookups animalHeap = [] := by
    cases hunfolds with
    | root => exact absurd hname (by decide)
    | @nested path parent field d target habove hkept hother =>
      rcases embeddedAt_animal (habove.nested hkept hother).embeddedAt with ⟨hsame, -⟩ | ⟨-, rfl⟩
      · exact absurd (hsame.symm.trans hname) (by decide)
      · rw [BuildRequest.lookups, BuildRequest.nested, habove.inherits.2]
        rfl
  obtain ⟨fields, hfields⟩ := hstays hnone
  refine ⟨hextend, hprops, hlookups, hgone, ?_, fields, hfields _ (Later.refl _) _ _ _,
    hfields _ hdropped _ _ _⟩
  exact hfails "Person" "Animal" _ (hroot rfl ▸ hlookups) _ hdropped hgone _ _ _

end DocumentTypes

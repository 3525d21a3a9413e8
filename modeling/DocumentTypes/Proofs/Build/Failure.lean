import DocumentTypes.Proofs.Build.WellFormedSchema

/-!
Why a build fails. A call fails by itself when its request misses an option, or when a kept path of
its schema has an unknown kind, embeds a schema that encloses it, or embeds one that is gone
(`Call.Fails`). Nothing else goes wrong: the name is still free when the type is constructed
(`buildWithin_eq_error`), so a build that fails does it because some call below it fails by itself
(`Call.exists_fails`), and all calls in between fail with it (`Call.Reaches.run_eq_error`).
-/

set_option autoImplicit false

namespace DocumentTypes

open World

variable {P : Producers} {heap : SchemaHeap} {registry : RegistryId} {ancestors : Lineage}
  {request : BuildRequest P} {w w' : World P} {e : BuildError}

theorem PrimitiveKind.scalar_eq_error {kind : PrimitiveKind} (h : kind.scalar = .error e) :
    kind.isKnown = false ∧ e = .unknownPrimitiveKind kind.tag := by
  cases kind with
  | other tag => exact ⟨rfl, (Except.error.inj h).symm⟩
  | _ => exact absurd h (by simp [scalar, classify])

/-- A path that fails has an unknown kind, or its nested build fails. -/
theorem pathLayer_eq_error {field : String} {d : PathDescriptor SchemaLink}
    {nested : (field : String) → (target : SchemaId) → target ≠ request.schema → World P →
      Except BuildError TypeId × World P}
    (h : pathLayer request registry nested field d w = (.error e, w')) :
    (∃ kind, d.element = .primitive kind ∧ kind.isKnown = false ∧
        e = .unknownPrimitiveKind kind.tag) ∨
      ∃ (target : SchemaId) (hself : target ≠ request.schema),
        d.otherSchema? request.schema = some target ∧
          nested field target hself w = (.error e, w') := by
  rcases pathLayer_cases h with ⟨hnone, -, -⟩ | ⟨target, hself, hother, hresult⟩
  · obtain ⟨element, isArray⟩ := d
    have hunknown := unknown_of_pathLayer_error hnone h
    cases element with
    | reference typeName => exact absurd hunknown (by simp [PathDescriptor.isKnown])
    | embedded link => exact absurd hunknown (by simp [PathDescriptor.isKnown])
    | primitive kind =>
      cases hscalar : kind.scalar with
      | error e' =>
        simp only [pathLayer, hscalar, Prod.mk.injEq, Except.error.injEq] at h
        obtain ⟨rfl, -⟩ := h
        exact Or.inl ⟨kind, rfl, PrimitiveKind.scalar_eq_error hscalar⟩
      | ok scalar => exact absurd h (by simp [pathLayer, hscalar])
  · rcases hresult with ⟨e', hrun, herror⟩ | ⟨t, -, hok⟩
    · obtain rfl := Except.error.inj herror
      exact Or.inr ⟨target, hself, hother, hrun⟩
    · exact absurd hok (by simp)

/-- A build that fails misses an option, or fails in the walk over its paths: what the walk leaves
free is not refused. -/
theorem buildWithin_eq_error (hheld : w.HasRegistry registry)
    (h : buildWithin heap registry ancestors request w = (.error e, w')) :
    (heap.paths request.schema = [] ∧ e = .missingOption .schema) ∨
      (request.name = "" ∧ e = .missingOption .name) ∨
      (request.name ≠ "" ∧ w.lookup registry request.name = none ∧
        walk request registry (nestedBuild heap registry ancestors request)
          (heap.kept request.exclude request.schema) w = (.error e, w')) := by
  rw [buildWithin_eq_buildStep, buildStep] at h
  split at h
  · next hempty =>
    exact Or.inl ⟨List.isEmpty_iff.mp hempty, (Except.error.inj (Prod.mk.inj h).1).symm⟩
  split at h
  · next hname =>
    exact Or.inr (Or.inl ⟨String.isEmpty_iff.mp hname, (Except.error.inj (Prod.mk.inj h).1).symm⟩)
  next hname =>
  split at h
  · exact absurd h (by simp)
  next hnew =>
  split at h
  · next e' w₁ hwalk =>
    obtain ⟨he, rfl⟩ := Prod.mk.inj h
    obtain rfl := Except.error.inj he
    exact Or.inr (Or.inr ⟨fun hempty ↦ hname (String.isEmpty_iff.mpr hempty), hnew, hwalk⟩)
  · next layers w₁ hwalk =>
    exact absurd (mem_keys_of_construct_error h) (notMem_keys_of_walk hheld hnew hwalk)

namespace Call

/-- The call fails by itself, and not because a call that it makes fails. -/
inductive Fails (heap : SchemaHeap) (c : Call P) : BuildError → Prop
  | empty (hempty : heap.paths c.request.schema = []) : Fails heap c (.missingOption .schema)
  | unnamed (hname : c.request.name = "") : Fails heap c (.missingOption .name)
  | unknownKind {field : String} {d : PathDescriptor SchemaLink} {kind : PrimitiveKind}
      (hkept : (field, d) ∈ heap.kept c.request.exclude c.request.schema)
      (hkind : d.element = .primitive kind) (hunknown : kind.isKnown = false) :
      Fails heap c (.unknownPrimitiveKind kind.tag)
  | cycle {field : String} {d : PathDescriptor SchemaLink} {target : SchemaId}
      (hkept : (field, d) ∈ heap.kept c.request.exclude c.request.schema)
      (hother : d.otherSchema? c.request.schema = some target)
      (hcycle : target ∈ c.ancestors.schemas) :
      Fails heap c (.embeddingCycle (embeddingCycle c.ancestors c.request.name field target))
  | dead {field : String} {d : PathDescriptor SchemaLink} {target : SchemaId}
      (hkept : (field, d) ∈ heap.kept c.request.exclude c.request.schema)
      (hother : d.otherSchema? c.request.schema = some target)
      (hdead : heap.isAlive target = false) : Fails heap c (.missingOption .schema)

/-- A call fails as any call that it makes does. -/
theorem Makes.run_eq_error {c c' : Call P} (hmakes : Makes heap registry c c')
    (h : (c'.run heap registry).1 = .error e) : (c.run heap registry).1 = .error e := by
  obtain @⟨before, after, field, d, target, w, layers, hname, hnew, hkept, hwalk, hother, hcycle,
    halive⟩ := hmakes
  have hrun : (c.nested field target w).run heap registry =
      (.error e, ((c.nested field target w).run heap registry).2) := Prod.ext h rfl
  have hlayer : pathLayer c.request registry (nestedBuild heap registry c.ancestors c.request)
      field d w = (.error e, ((c.nested field target w).run heap registry).2) := by
    refine pathLayer_of_error hother fun hself ↦ ?_
    rw [nestedBuild, nestedStep, if_neg hcycle, if_pos halive]
    exact hrun
  obtain ⟨hpath, hfield⟩ := SchemaHeap.of_kept_eq_append hkept
  have hwalks : walk c.request registry (nestedBuild heap registry c.ancestors c.request)
      (heap.kept c.request.exclude c.request.schema) c.world =
        (.error e, ((c.nested field target w).run heap registry).2) := by
    rw [hkept, walk_append_of_ok hwalk, walk_cons_of_error hfield hlayer]
  rcases hcall : c.run heap registry with ⟨result, w'⟩
  rcases buildWithin_cases hcall with ⟨hempty | hunnamed, -, -⟩ | ⟨t, hlookup, -⟩ |
    ⟨-, -, ⟨e', herror, rfl⟩ | ⟨layers', w₂, hok, -⟩⟩
  · exact absurd (hempty ▸ hpath) List.not_mem_nil
  · exact absurd hunnamed hname
  · exact absurd (hnew.symm.trans hlookup) (by simp)
  · obtain rfl := Except.error.inj (congrArg Prod.fst (herror.symm.trans hwalks))
    rfl
  · exact absurd (hok.symm.trans hwalks) (by simp)

/-- A call fails as any call below it does. -/
theorem Reaches.run_eq_error {c c' : Call P} (hreaches : Reaches heap registry c c')
    (h : (c'.run heap registry).1 = .error e) : (c.run heap registry).1 = .error e := by
  induction hreaches using Relation.ReflTransGen.head_induction_on with
  | refl => exact h
  | head hmakes _ ih => exact hmakes.run_eq_error ih

/-- A call that fails reaches one that fails by itself, with the same error. The induction is on the
nested requests: the path that ends the walk fails by itself or makes a call that fails. -/
theorem exists_fails (c : Call P) (hheld : c.world.HasRegistry registry)
    (h : (c.run heap registry).1 = .error e) :
    ∃ c', Reaches heap registry c c' ∧ (c'.run heap registry).1 = .error e ∧
      c'.Fails heap e := by
  obtain ⟨ancestors, request, w⟩ := c
  induction ancestors, request, w using nested_induction heap with
  | step ancestors request w ih =>
    have hitself : ∀ {e'}, Fails heap ⟨ancestors, request, w⟩ e' →
        ∃ c', Reaches heap registry ⟨ancestors, request, w⟩ c' ∧
          (c'.run heap registry).1 = .error e ∧ c'.Fails heap e' :=
      fun hfails ↦ ⟨_, Relation.ReflTransGen.refl, h, hfails⟩
    have hrun : buildWithin heap registry ancestors request w =
        (.error e, (run heap registry ⟨ancestors, request, w⟩).2) := Prod.ext h rfl
    rcases buildWithin_eq_error hheld hrun with ⟨hempty, rfl⟩ | ⟨hname, rfl⟩ | ⟨hname, hnew, hwalk⟩
    · exact hitself (.empty hempty)
    · exact hitself (.unnamed hname)
    obtain ⟨before, field, d, after, layers, w₁, hsplit, hbefore, hlayer⟩ := walk_eq_error hwalk
    have hkept := SchemaHeap.mem_kept.mpr (SchemaHeap.of_kept_eq_append hsplit)
    rcases pathLayer_eq_error hlayer with ⟨kind, hkind, hunknown, rfl⟩ |
      ⟨target, hself, hother, hnested⟩
    · exact hitself (.unknownKind hkept hkind hunknown)
    rcases nestedBuild_cases hnested with ⟨hcycle, -, herror⟩ | ⟨hdead, -, herror⟩ |
      ⟨hcycle, halive, hbuild⟩
    · obtain rfl := Except.error.inj herror
      exact hitself (.cycle hkept hother hcycle)
    · obtain rfl := Except.error.inj herror
      exact hitself (.dead hkept hother hdead)
    · have hmakes : Makes heap registry ⟨ancestors, request, w⟩
          (nested ⟨ancestors, request, w⟩ field target w₁) :=
        .nested hname hnew hsplit hbefore hother hcycle halive
      obtain ⟨c', hreaches, herror, hfails⟩ := ih field target w₁ hself hcycle halive
        ((walk_grows_nested hbefore).hasRegistry hheld) (congrArg Prod.fst hbuild)
      exact ⟨c', Relation.ReflTransGen.head hmakes hreaches, herror, hfails⟩

end Call

end DocumentTypes

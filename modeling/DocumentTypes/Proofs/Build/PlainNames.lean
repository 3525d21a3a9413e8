import DocumentTypes.Proofs.Build.Provenance
import DocumentTypes.Proofs.Text.ClosingMark

/-!
Names without underscores. In a nested name the field ends at the next underscore or at the end, so
fields without underscores that lead to one name are the same (`eq_of_isWithinName`). A build that
starts where neither its name nor a name nested in it is registered then never finds a type that is
registered already: each of its calls starts in a world that misses its name and the names nested in
it (`Call.Makes.misses`). What a call that succeeds finds missing it builds, for every kept path
that embeds another schema (`Call.Generates.exists_makes`).
-/

set_option autoImplicit false

namespace DocumentTypes

/-- The name has no underscore. -/
def IsPlainName (name : String) : Prop :=
  '_' ∉ name.toList

instance : DecidablePred IsPlainName :=
  fun name ↦ inferInstanceAs (Decidable ('_' ∉ name.toList))

/-- The name itself, or a name that is nested in it. -/
def IsWithinName (own name : String) : Prop :=
  name = own ∨ IsNestedName own name

theorem IsWithinName.isNestedName {parent field name : String}
    (h : IsWithinName (subFieldName parent field) name) : IsNestedName parent name := by
  rcases h with rfl | hnested
  · exact isNestedName_subFieldName parent field
  · exact (isNestedName_subFieldName parent field).trans hnested

/-- With an underscore behind it, the name starts with the outer one and an underscore. -/
theorem IsWithinName.exists_rest {own name : String} (h : IsWithinName own name) :
    ∃ rest, name.toList ++ ['_'] = own.toList ++ '_' :: rest := by
  rcases h with rfl | ⟨inner, rfl⟩
  · exact ⟨[], rfl⟩
  · refine ⟨inner.toList ++ ['_'], ?_⟩
    have hunderscore : "_".toList = ['_'] := rfl
    rw [subFieldName, String.toList_append, String.toList_append, hunderscore]
    simp only [List.append_assoc, List.cons_append, List.nil_append]

/-- What follows a common front is read up to the next underscore. -/
theorem eq_of_isWithinName {front first second name : String} (hfirst : IsPlainName first)
    (hsecond : IsPlainName second) (h : IsWithinName (front ++ first) name)
    (h' : IsWithinName (front ++ second) name) : first = second := by
  obtain ⟨rest, hrest⟩ := h.exists_rest
  obtain ⟨rest', hrest'⟩ := h'.exists_rest
  have heq := hrest.symm.trans hrest'
  rw [String.toList_append, String.toList_append, List.append_assoc, List.append_assoc] at heq
  obtain ⟨hsame, -⟩ := Text.append_cons_inj hfirst hsecond (List.append_cancel_left heq)
  exact String.toList_inj.mp hsame

theorem eq_of_isWithinName_of_plain {first second name : String} (hfirst : IsPlainName first)
    (hsecond : IsPlainName second) (h : IsWithinName first name) (h' : IsWithinName second name) :
    first = second := by
  have hfront : ∀ text : String, "" ++ text = text := fun text ↦ String.empty_append
  rw [← hfront first] at h
  rw [← hfront second] at h'
  exact eq_of_isWithinName hfirst hsecond h h'

variable {P : Producers} {heap : SchemaHeap} {registry : RegistryId} {ancestors : Lineage}
  {request : BuildRequest P} {w w' : World P}

/-- The registry holds neither the name nor a name that is nested in it. -/
def World.Misses (w : World P) (registry : RegistryId) (name : String) : Prop :=
  ∀ key ∈ (w.registryAt registry).keys, ¬ IsWithinName name key

open World

theorem World.Misses.lookup_eq_none {name : String} (h : w.Misses registry name) :
    w.lookup registry name = none :=
  lookup_eq_none_iff.mpr fun hmem ↦ h name hmem (Or.inl rfl)

theorem World.misses_of_registryAt_eq_empty (hempty : w.registryAt registry = ∅) (name : String) :
    w.Misses registry name := by
  intro key hkey
  rw [hempty] at hkey
  exact absurd hkey List.not_mem_nil

theorem SchemaHeap.nodup_kept (heap : SchemaHeap) (exclude : List String) (schema : SchemaId) :
    ((heap.kept exclude schema).map Prod.fst).Nodup := by
  have hpaths : ((heap.paths schema).map Prod.fst).Nodup := by
    unfold SchemaHeap.paths
    split
    · next found _ => exact found.nodup_keys
    · exact List.nodup_nil
  exact hpaths.sublist (List.filter_sublist.map Prod.fst)

/-- While a path is looked at, only names within that of its nested type are registered. -/
theorem pathLayer_grows_within {field : String} {d : PathDescriptor SchemaLink}
    {result : Except BuildError (FieldLayer (DeferredField P) (DeferredMap P))}
    (h : pathLayer request registry (nestedBuild heap registry ancestors request) field d w =
      (result, w')) :
    Grows registry (IsWithinName (subFieldName request.name field)) w w' := by
  rcases pathLayer_world_cases h with rfl | ⟨target, built, -, -, -, hbuild⟩
  · exact Grows.refl _
  · have hgrows : Grows registry (IsOwnName (request.nested field target)) w
        (buildWithin heap registry (ancestors ++ [(request.name, request.schema)])
          (request.nested field target) w).2 := buildWithin_grows heap _ _ w
    rw [hbuild] at hgrows
    exact hgrows

/-- While paths are walked, only names within those of their nested types are registered. -/
theorem walk_grows_within {paths : List (String × PathDescriptor SchemaLink)}
    {result : Except BuildError (FieldThunk (DeferredField P) (DeferredMap P))}
    (h : walk request registry (nestedBuild heap registry ancestors request) paths w =
      (result, w')) :
    Grows registry
      (fun name ↦ ∃ path ∈ paths, IsWithinName (subFieldName request.name path.1) name) w w' := by
  induction paths generalizing w result with
  | nil =>
    obtain ⟨-, rfl⟩ := Prod.mk.inj h
    exact Grows.refl _
  | cons path rest ih =>
    obtain ⟨field, d⟩ := path
    have hrest : ∀ name, (∃ path ∈ rest, IsWithinName (subFieldName request.name path.1) name) →
        ∃ path ∈ (field, d) :: rest, IsWithinName (subFieldName request.name path.1) name :=
      fun _ ⟨path, hpath, hname⟩ ↦ ⟨path, List.mem_cons_of_mem _ hpath, hname⟩
    have hfirst : ∀ name, IsWithinName (subFieldName request.name field) name →
        ∃ path ∈ (field, d) :: rest, IsWithinName (subFieldName request.name path.1) name :=
      fun _ hname ↦ ⟨(field, d), List.mem_cons_self, hname⟩
    by_cases hexclude : field ∈ request.exclude
    · rw [walk_cons_of_mem hexclude] at h
      exact (ih h).mono hrest
    · rcases hlayer : pathLayer request registry (nestedBuild heap registry ancestors request)
        field d w with ⟨e | layer, w₁⟩
      · rw [walk_cons_of_error hexclude hlayer] at h
        obtain ⟨-, rfl⟩ := Prod.mk.inj h
        exact (pathLayer_grows_within hlayer).mono hfirst
      · have hgrows := (pathLayer_grows_within hlayer).mono hfirst
        rw [walk_cons_of_ok hexclude hlayer] at h
        rcases hmore : walk request registry (nestedBuild heap registry ancestors request) rest w₁
          with ⟨e | layers, w₂⟩
        · rw [hmore] at h
          obtain ⟨-, rfl⟩ := Prod.mk.inj h
          exact hgrows.trans ((ih hmore).mono hrest)
        · rw [hmore] at h
          obtain ⟨-, rfl⟩ := Prod.mk.inj h
          exact hgrows.trans ((ih hmore).mono hrest)

namespace Call

variable {c c' : Call P}

/-- Where the kept paths have plain names, a call that misses its name, with the names nested in it,
makes calls that do so too: what earlier paths register is within other names. -/
theorem Makes.misses (h : Makes heap registry c c') (hheld : c.world.HasRegistry registry)
    (hplain : ∀ path ∈ heap.kept c.request.exclude c.request.schema, IsPlainName path.1)
    (hmisses : c.world.Misses registry c.request.name) :
    c'.world.Misses registry c'.request.name := by
  obtain @⟨before, after, field, d, target, w, layers, -, -, hkept, hwalk, -, -, -⟩ := h
  have hnodup := heap.nodup_kept c.request.exclude c.request.schema
  rw [hkept] at hplain
  rw [hkept, List.map_append, List.nodup_append] at hnodup
  intro key hkey hwithin
  rcases (walk_grows_within hwalk).mem_keys hheld hkey with hold | ⟨path, hpath, hname⟩
  · exact hmisses key hold (Or.inr hwithin.isNestedName)
  · have hsame : path.1 = field :=
      eq_of_isWithinName (hplain path (List.mem_append_left _ hpath))
        (hplain (field, d) List.mem_append_cons_self) hname hwithin
    exact hnodup.2.2 path.1 (List.mem_map_of_mem hpath) field List.mem_cons_self hsame

theorem Reaches.misses (h : Reaches heap registry c c') (hheld : c.world.HasRegistry registry)
    (hplain : ∀ call, Reaches heap registry c call →
      ∀ path ∈ heap.kept call.request.exclude call.request.schema, IsPlainName path.1)
    (hmisses : c.world.Misses registry c.request.name) :
    c'.world.Misses registry c'.request.name := by
  induction h with
  | refl => exact hmisses
  | tail hreaches hmakes ih =>
    exact hmakes.misses (Reaches.hasRegistry_world hheld hreaches) (hplain _ hreaches) ih

variable {t : TypeId}

/-- A call that builds a type under a new name walks all its kept paths. -/
theorem Generates.exists_walk (h : c.Generates heap registry t) :
    c.request.name ≠ "" ∧ heap.paths c.request.schema ≠ [] ∧
      ∃ layers w, walk c.request registry (nestedBuild heap registry c.ancestors c.request)
          (heap.kept c.request.exclude c.request.schema) c.world = (.ok layers, w) ∧
        w.construct registry (c.request.type layers) = c.run heap registry := by
  obtain ⟨hmissing, hbuilt⟩ := h
  rcases hrun : c.run heap registry with ⟨result, w'⟩
  rw [hrun] at hbuilt
  obtain rfl : result = .ok t := hbuilt
  obtain ⟨hpaths, hname, ⟨hlookup, -⟩ | ⟨-, layers, w, hwalk, hconstruct⟩⟩ :=
    buildWithin_eq_ok hrun
  · exact absurd (hmissing.symm.trans hlookup) (by simp)
  · exact ⟨hname, hpaths, layers, w, hwalk, hconstruct⟩

/-- A call that builds a type under a new name makes a call for each kept path that embeds another
schema: that schema lives, it does not enclose the type, and the call succeeds. -/
theorem Generates.exists_makes (h : c.Generates heap registry t) {field : String}
    {d : PathDescriptor SchemaLink} {target : SchemaId}
    (hkept : (field, d) ∈ heap.kept c.request.exclude c.request.schema)
    (hother : d.otherSchema? c.request.schema = some target) :
    target ∉ c.ancestors.schemas ∧ heap.isAlive target = true ∧
      ∃ w u, Makes heap registry c (c.nested field target w) ∧
        ((c.nested field target w).run heap registry).1 = .ok u := by
  obtain ⟨hname, -, layers, w', hwalk, -⟩ := h.exists_walk
  obtain ⟨before, after, hsplit⟩ := List.append_of_mem hkept
  have hfield := (SchemaHeap.of_kept_eq_append hsplit).2
  rw [hsplit, walk_append] at hwalk
  rcases hbefore : walk c.request registry (nestedBuild heap registry c.ancestors c.request) before
    c.world with ⟨e | front, w⟩
  · rw [hbefore] at hwalk
    exact absurd hwalk (by simp)
  rw [hbefore] at hwalk
  rcases hlayer : pathLayer c.request registry (nestedBuild heap registry c.ancestors c.request)
    field d w with ⟨e | layer, w₁⟩
  · simp only [walk_cons_of_error hfield hlayer] at hwalk
    exact absurd hwalk (by simp)
  rcases pathLayer_eq_ok hlayer with
    ⟨hnone, -⟩ | ⟨target', u, -, hsome, hcycle, halive, hbuild⟩
  · exact absurd (hother.symm.trans hnone) (by simp)
  · obtain rfl := Option.some.inj (hother.symm.trans hsome)
    exact ⟨hcycle, halive, w, u, .nested hname h.missing hsplit hbefore hother hcycle halive,
      congrArg Prod.fst hbuild⟩

end Call

end DocumentTypes

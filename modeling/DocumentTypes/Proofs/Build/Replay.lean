import DocumentTypes.Proofs.Build.Declarations

/-!
The same build in two worlds. Where a build succeeds, it succeeds again in every world whose
registry holds all that the first one holds and nothing of what the build adds (`World.Covers`). The
two runs go in step: a name that the first run finds missing is one that it will have added, so the
second run finds it missing too, and both look at the same paths. What the first run adds the second
run adds, under the same names and for the same requests (`World.Replays`, by `walk_replays` and
`buildWithin_replays`).
-/

set_option autoImplicit false

namespace DocumentTypes

variable {P : Producers} {heap : SchemaHeap} {registry : RegistryId} {ancestors : Lineage}
  {request : BuildRequest P} {Q : BuildRequest P → Prop}

namespace World

variable {w w₁ w' v v₁ v' : World P} {name : String}

/-- The registry holds a type under the name. -/
abbrev Holds (w : World P) (registry : RegistryId) (name : String) : Prop :=
  name ∈ (w.registryAt registry).keys

theorem holds_iff : w.Holds registry name ↔ ∃ t, w.lookup registry name = some t :=
  OrderedMap.mem_keys_iff

theorem Later.holds (h : Later w w') (hheld : w'.HasRegistry registry)
    (hname : w.Holds registry name) : w'.Holds registry name := by
  obtain ⟨t, ht⟩ := holds_iff.mp hname
  exact holds_iff.mpr ⟨t, h.lookup hheld ht⟩

theorem holds_construct {type : GeneratedType P} {t : TypeId} (hheld : w.HasRegistry registry)
    (h : w.construct registry type = (.ok t, w')) :
    w'.Holds registry name ↔ w.Holds registry name ∨ name = type.name := by
  rw [Holds, OrderedMap.keys, entries_construct hheld h, List.map_append, List.mem_append]
  exact or_congr Iff.rfl List.mem_singleton

/-- The registry of `v` holds all that it holds in `w`, and nothing that is added until `w'`. -/
structure Covers (registry : RegistryId) (w w' v : World P) : Prop where
  held : w.HasRegistry registry
  held_there : v.HasRegistry registry
  holds : ∀ name, w.Holds registry name → v.Holds registry name
  fresh : ∀ name, w'.Holds registry name → v.Holds registry name → w.Holds registry name

/-- From `v` to `v'` the registry gets the names that it gets from `w` to `w'`, with types that
fulfil the same requests. All of these are requests of the kind `Q`. -/
structure Replays (heap : SchemaHeap) (registry : RegistryId) (Q : BuildRequest P → Prop)
    (w w' v v' : World P) : Prop where
  later : Later w w'
  held : w'.HasRegistry registry
  later_there : Later v v'
  held_there : v'.HasRegistry registry
  holds_iff : ∀ name, v'.Holds registry name ↔ v.Holds registry name ∨ w'.Holds registry name
  fulfils : ∀ name, w'.Holds registry name → ¬ w.Holds registry name →
    ∃ r u u', Q r ∧ r.name = name ∧ w'.Fulfils heap registry r u ∧ v'.Fulfils heap registry r u'

/-- What covers a run covers its beginning. -/
theorem Covers.front (h : Covers registry w w' v) (hlater : Later w₁ w')
    (hheld : w'.HasRegistry registry) : Covers registry w w₁ v where
  held := h.held
  held_there := h.held_there
  holds := h.holds
  fresh name hname := h.fresh name (hlater.holds hheld hname)

/-- After its beginning has been replayed, the rest of a run is covered. -/
theorem Covers.rest (h : Covers registry w w' v) (hreplays : Replays heap registry Q w w₁ v v₁) :
    Covers registry w₁ w' v₁ where
  held := hreplays.held
  held_there := hreplays.held_there
  holds name hname := (hreplays.holds_iff name).mpr (Or.inr hname)
  fresh name hname hthere := by
    rcases (hreplays.holds_iff name).mp hthere with hbefore | hadded
    · exact hreplays.later.holds hreplays.held (h.fresh name hname hbefore)
    · exact hadded

theorem Replays.refl (h : Covers registry w w' v) : Replays heap registry Q w w v v where
  later := Later.refl w
  held := h.held
  later_there := Later.refl v
  held_there := h.held_there
  holds_iff name := ⟨Or.inl, fun hname ↦ hname.elim id (h.holds name)⟩
  fulfils _ hname hnew := absurd hname hnew

theorem Replays.trans (hfirst : Replays heap registry Q w w₁ v v₁)
    (hsecond : Replays heap registry Q w₁ w' v₁ v') : Replays heap registry Q w w' v v' where
  later := hfirst.later.trans hsecond.later
  held := hsecond.held
  later_there := hfirst.later_there.trans hsecond.later_there
  held_there := hsecond.held_there
  holds_iff name := by
    have hkept : w₁.Holds registry name → w'.Holds registry name :=
      hsecond.later.holds hsecond.held
    rw [hsecond.holds_iff, hfirst.holds_iff]
    tauto
  fulfils name hname hnew := by
    by_cases hadded : w₁.Holds registry name
    · obtain ⟨r, u, u', hr, hsame, halone, hthere⟩ := hfirst.fulfils name hadded hnew
      exact ⟨r, u, u', hr, hsame, halone.later hsecond.later hsecond.held,
        hthere.later hsecond.later_there hsecond.held_there⟩
    · exact hsecond.fulfils name hname hadded

/-- Types that are constructed in both worlds for the same request add one name, for this
request. -/
theorem Replays.construct {layers layers' : FieldThunk (DeferredField P) (DeferredMap P)}
    {t t' : TypeId} (hrequest : Q request) (hheld : w.HasRegistry registry)
    (hheld' : v.HasRegistry registry)
    (hholds : ∀ name, w.Holds registry name → v.Holds registry name)
    (h : w.construct registry (request.type layers) = (.ok t, w'))
    (h' : v.construct registry (request.type layers') = (.ok t', v'))
    (hfulfils : w'.Fulfils heap registry request t)
    (hfulfils' : v'.Fulfils heap registry request t') : Replays heap registry Q w w' v v' := by
  refine ⟨later_construct hheld h, hasRegistry_construct hheld h, later_construct hheld' h',
    hasRegistry_construct hheld' h', fun name ↦ ?_, fun name hname hnew ↦ ?_⟩
  · have hold := hholds name
    rw [holds_construct hheld h, holds_construct hheld' h']
    tauto
  · rcases (holds_construct hheld h).mp hname with hold | rfl
    · exact absurd hold hnew
    · exact ⟨request, t, t', hrequest, rfl, hfulfils, hfulfils'⟩

end World

open World

section Path

variable {nested : (field : String) → (target : SchemaId) → target ≠ request.schema → World P →
    Except BuildError TypeId × World P}
  {field : String} {d : PathDescriptor SchemaLink}

/-- A path that embeds no other schema adds the same in every world. -/
theorem pathLayer_of_otherSchema?_eq_none {w w' : World P}
    {result : Except BuildError (FieldLayer (DeferredField P) (DeferredMap P))}
    (hnone : d.otherSchema? request.schema = none)
    (h : pathLayer request registry nested field d w = (result, w')) (v : World P) :
    pathLayer request registry nested field d v = (result, v) := by
  obtain ⟨element, isArray⟩ := d
  cases element with
  | reference typeName =>
    obtain ⟨rfl, -⟩ := Prod.mk.inj h
    rfl
  | primitive kind =>
    cases hscalar : kind.scalar with
    | error e =>
      simp only [pathLayer, hscalar, Prod.mk.injEq] at h ⊢
      exact ⟨h.1, trivial⟩
    | ok scalar =>
      simp only [pathLayer, hscalar, Prod.mk.injEq] at h ⊢
      exact ⟨h.1, trivial⟩
  | embedded link =>
    have hself : link.target = request.schema := by
      by_contra hother
      exact absurd ((if_neg hother).symm.trans hnone) (by simp)
    simp only [pathLayer, dif_pos hself, Prod.mk.injEq] at h ⊢
    exact ⟨h.1, trivial⟩

/-- A path whose nested type is built adds a field with this type. -/
theorem pathLayer_of_ok {target : SchemaId} {v v' : World P} {t : TypeId}
    (hother : d.otherSchema? request.schema = some target)
    (h : ∀ hself : target ≠ request.schema, nested field target hself v = (.ok t, v')) :
    pathLayer request registry nested field d v =
      (.ok (.field field (.ofType (.listIf d.isArray (.named t)))), v') := by
  rcases hlayer : pathLayer request registry nested field d v with ⟨layer, v₁⟩
  rcases pathLayer_cases hlayer with ⟨hnone, -, -⟩ | ⟨target', hself, hsome, hresult⟩
  · exact absurd (hother.symm.trans hnone) (by simp)
  · obtain rfl := Option.some.inj (hother.symm.trans hsome)
    rcases hresult with ⟨e, hrun, -⟩ | ⟨t', hrun, rfl⟩
    · exact absurd ((h hself).symm.trans hrun) (by simp)
    · obtain ⟨ht, rfl⟩ := Prod.mk.inj ((h hself).symm.trans hrun)
      rw [Except.ok.inj ht]

end Path

/-! ### Walks -/

/-- The builds that a walk makes for the paths of the request are replayed wherever they are
covered: for the first path as the beginning of the walk, and for the others where that leads. -/
def NestedBuildsReplay (heap : SchemaHeap) (registry : RegistryId) (ancestors : Lineage)
    (request : BuildRequest P) (Q : BuildRequest P → Prop) : Prop :=
  ∀ field target w t w' v, target ≠ request.schema → target ∉ ancestors.schemas →
    heap.isAlive target = true → Covers registry w w' v →
    buildWithin heap registry (ancestors ++ [(request.name, request.schema)])
      (request.nested field target) w = (.ok t, w') →
    ∃ t' v', buildWithin heap registry (ancestors ++ [(request.name, request.schema)])
        (request.nested field target) v = (.ok t', v') ∧ Replays heap registry Q w w' v v'

variable {w w' v : World P}

theorem pathLayer_replays (hnested : NestedBuildsReplay heap registry ancestors request Q)
    {field : String} {d : PathDescriptor SchemaLink}
    {layer : FieldLayer (DeferredField P) (DeferredMap P)} (hcovers : Covers registry w w' v)
    (h : pathLayer request registry (nestedBuild heap registry ancestors request) field d w =
      (.ok layer, w')) :
    ∃ layer' v', pathLayer request registry (nestedBuild heap registry ancestors request) field d
      v = (.ok layer', v') ∧ Replays heap registry Q w w' v v' := by
  rcases pathLayer_eq_ok h with
    ⟨hnone, rfl⟩ | ⟨target, t, hself, hother, hcycle, halive, hbuild⟩
  · exact ⟨layer, v, pathLayer_of_otherSchema?_eq_none hnone h v, .refl hcovers⟩
  · obtain ⟨t', v', hbuild', hreplays⟩ :=
      hnested field target w t w' v hself hcycle halive hcovers hbuild
    have hrun : ∀ hself : target ≠ request.schema,
        nestedBuild heap registry ancestors request field target hself v = (.ok t', v') := by
      intro hself
      rw [nestedBuild, nestedStep, if_neg hcycle, if_pos halive, hbuild']
    exact ⟨_, v', pathLayer_of_ok hother hrun, hreplays⟩

theorem walk_replays (hnested : NestedBuildsReplay heap registry ancestors request Q)
    {paths : List (String × PathDescriptor SchemaLink)}
    {layers : FieldThunk (DeferredField P) (DeferredMap P)} (hcovers : Covers registry w w' v)
    (h : walk request registry (nestedBuild heap registry ancestors request) paths w =
      (.ok layers, w')) :
    ∃ layers' v', walk request registry (nestedBuild heap registry ancestors request) paths v =
      (.ok layers', v') ∧ Replays heap registry Q w w' v v' := by
  induction paths generalizing w v layers with
  | nil =>
    obtain ⟨-, rfl⟩ := Prod.mk.inj h
    exact ⟨[], v, rfl, .refl hcovers⟩
  | cons path rest ih =>
    obtain ⟨field, d⟩ := path
    by_cases hexclude : field ∈ request.exclude
    · rw [walk_cons_of_mem hexclude] at h ⊢
      exact ih hcovers h
    obtain ⟨layer, w₁, more, hlayer, hmore, rfl⟩ := walk_cons_eq_ok hexclude h
    have hheld₁ := (pathLayer_grows_nested hlayer).hasRegistry hcovers.held
    have hgrows := walk_grows_nested hmore
    obtain ⟨layer', v₁, hlayer', hfirst⟩ := pathLayer_replays hnested
      (hcovers.front (hgrows.later hheld₁) (hgrows.hasRegistry hheld₁)) hlayer
    obtain ⟨more', v', hmore', hsecond⟩ := ih (hcovers.rest hfirst) hmore
    refine ⟨layer' :: more', v', ?_, hfirst.trans hsecond⟩
    rw [walk_cons_of_ok hexclude hlayer', hmore']

/-! ### Builds -/

/-- A valid request gives the type that is registered under its name. -/
theorem buildWithin_of_lookup {t : TypeId} (hpaths : heap.paths request.schema ≠ [])
    (hname : request.name ≠ "") (hlookup : w.lookup registry request.name = some t) :
    buildWithin heap registry ancestors request w = (.ok t, w) := by
  rw [buildWithin_eq_buildStep, buildStep, if_neg (by simpa using hpaths),
    if_neg (by simpa using hname), hlookup]

/-- A valid request whose paths are walked is constructed if its name is not in use. -/
theorem exists_buildWithin_of_walk {layers : FieldThunk (DeferredField P) (DeferredMap P)}
    {w₁ : World P} (hpaths : heap.paths request.schema ≠ []) (hname : request.name ≠ "")
    (hheld : w.HasRegistry registry) (hnew : w.lookup registry request.name = none)
    (hwalk : walk request registry (nestedBuild heap registry ancestors request)
      (heap.kept request.exclude request.schema) w = (.ok layers, w₁)) :
    ∃ t w', buildWithin heap registry ancestors request w = (.ok t, w') ∧
      w₁.construct registry (request.type layers) = (.ok t, w') := by
  have hbuild : buildWithin heap registry ancestors request w =
      w₁.construct registry (request.type layers) := by
    rw [buildWithin_eq_buildStep, buildStep, if_neg (by simpa using hpaths),
      if_neg (by simpa using hname), hnew]
    simp only [hwalk]
  rcases hconstruct : w₁.construct registry (request.type layers) with ⟨e | t, w'⟩
  · exact absurd (mem_keys_of_construct_error hconstruct) (notMem_keys_of_walk hheld hnew hwalk)
  · exact ⟨t, w', hbuild.trans hconstruct, rfl⟩

/-- A build that succeeds is replayed in every world that covers it. Its name is registered in the
end, so a world that has the name already has it from the first one. -/
theorem buildWithin_replays (hnested : ∀ r field target, Q (BuildRequest.nested r field target))
    (hrequest : Q request) {t : TypeId} (hcovers : Covers registry w w' v)
    (h : buildWithin heap registry ancestors request w = (.ok t, w')) :
    ∃ t' v', buildWithin heap registry ancestors request v = (.ok t', v') ∧
      Replays heap registry Q w w' v v' := by
  induction ancestors, request, w using nested_induction heap generalizing t w' v with
  | step ancestors request w ih =>
    have hregistered : w'.Holds registry request.name :=
      holds_iff.mpr ⟨t, lookup_buildWithin hcovers.held h⟩
    obtain ⟨hpaths, hname, ⟨hlookup, rfl⟩ | ⟨hnew, layers, w₁, hwalk, hconstruct⟩⟩ :=
      buildWithin_eq_ok h
    · obtain ⟨t', hthere⟩ := holds_iff.mp (hcovers.holds _ hregistered)
      exact ⟨t', v, buildWithin_of_lookup hpaths hname hthere, .refl hcovers⟩
    · have hheld₁ := (walk_grows_nested hwalk).hasRegistry hcovers.held
      have hcalls : NestedBuildsReplay heap registry ancestors request Q :=
        fun field target w t w' v hself hcycle halive hcovers hrun ↦
          ih field target w hself hcycle halive (hnested request field target) hcovers hrun
      obtain ⟨layers', v₁, hwalk', hwalked⟩ := walk_replays hcalls
        (hcovers.front (later_construct hheld₁ hconstruct)
          (hasRegistry_construct hheld₁ hconstruct)) hwalk
      have hnew' : v.lookup registry request.name = none :=
        lookup_eq_none_iff.mpr fun hthere ↦
          lookup_eq_none_iff.mp hnew (hcovers.fresh _ hregistered hthere)
      obtain ⟨t', v', hbuild', hconstruct'⟩ :=
        exists_buildWithin_of_walk hpaths hname hcovers.held_there hnew' hwalk'
      refine ⟨t', v', hbuild', hwalked.trans ?_⟩
      exact .construct hrequest hheld₁ hwalked.held_there
        (fun name hname ↦ (hwalked.holds_iff name).mpr (Or.inr hname)) hconstruct hconstruct'
        (fulfils_of_buildWithin hcovers.held hnew h)
        (fulfils_of_buildWithin hcovers.held_there hnew' hbuild')

end DocumentTypes

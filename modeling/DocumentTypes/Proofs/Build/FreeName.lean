import DocumentTypes.Proofs.Build.Failure
import DocumentTypes.Proofs.Build.PostOrder
import DocumentTypes.Proofs.Build.Replay
import DocumentTypes.Proofs.Build.WriteOnce

/-!
The name of a type that is being built stays free. A call that misses its name builds the nested
types first and registers its own type without looking again. In all the worlds that it passes in
between (`Call.During`), at whatever depth of the nested calls, only names nested in its own have
been added (`Call.During.grows`), which are longer. So the registration is never refused, and no
build fails because a name is in use (`name_stays_free`).
-/

set_option autoImplicit false

namespace DocumentTypes

open World

variable {P : Producers} {heap : SchemaHeap} {registry : RegistryId}

namespace Call

variable {c : Call P} {w : World P}

/-- The worlds that a call passes from when it misses its name to when it registers its type: those
in which its walk stands between two paths or has stopped, and those that the calls which it makes
pass. -/
inductive During (heap : SchemaHeap) (registry : RegistryId) : Call P → World P → Prop
  | walked {c : Call P} {before after : List (String × PathDescriptor SchemaLink)}
      {result : Except BuildError (FieldThunk (DeferredField P) (DeferredMap P))} {w : World P}
      (hpaths : heap.paths c.request.schema ≠ []) (hname : c.request.name ≠ "")
      (hnew : c.world.lookup registry c.request.name = none)
      (hkept : heap.kept c.request.exclude c.request.schema = before ++ after)
      (hwalk : walk c.request registry (nestedBuild heap registry c.ancestors c.request) before
        c.world = (result, w)) : During heap registry c w
  | nested {c c' : Call P} {w : World P} (hmakes : Makes heap registry c c')
      (hduring : During heap registry c' w) : During heap registry c w

theorem During.missing (h : During heap registry c w) :
    c.world.lookup registry c.request.name = none := by
  cases h with
  | walked _ _ hnew _ _ => exact hnew
  | nested hmakes _ =>
    obtain ⟨-, hnew, -, -, -, -, -⟩ := hmakes
    exact hnew

/-- Until a call registers its type, only names nested in its own come up. The induction is on the
way down to the call that is running: a name nested in a nested name is a nested name. -/
theorem During.grows (h : During heap registry c w) :
    Grows registry (IsNestedName c.request.name) c.world w := by
  induction h with
  | walked _ _ _ _ hwalk => exact walk_grows_nested hwalk
  | @nested c c' w hmakes _ ih =>
    obtain ⟨field, -, target, -, -, hrequest⟩ := hmakes.request_eq
    refine hmakes.grows_world.trans (ih.mono fun name hname ↦ ?_)
    rw [hrequest] at hname
    exact (isNestedName_subFieldName c.request.name field).trans hname

/-- The name of a call is free until the call registers its type. -/
theorem During.lookup_eq_none (h : During heap registry c w)
    (hheld : c.world.HasRegistry registry) : w.lookup registry c.request.name = none := by
  refine lookup_eq_none_iff.mpr fun hused ↦ ?_
  rcases h.grows.mem_keys hheld hused with hbefore | hnested
  · exact lookup_eq_none_iff.mp h.missing hbefore
  · exact hnested.ne rfl

/-- A call does not fail because a name is in use: nothing fails by itself in that way. -/
theorem run_ne_duplicateName (c : Call P) (hheld : c.world.HasRegistry registry) (name : String) :
    (c.run heap registry).1 ≠ .error (.duplicateName name) := by
  intro hfailed
  obtain ⟨c', -, -, hfails⟩ := exists_fails c hheld hfailed
  cases hfails

/-- A call that misses its name and passes all its paths registers its type at the end. -/
theorem exists_run_of_walk (hheld : c.world.HasRegistry registry)
    (hpaths : heap.paths c.request.schema ≠ []) (hname : c.request.name ≠ "")
    (hnew : c.world.lookup registry c.request.name = none)
    {layers : FieldThunk (DeferredField P) (DeferredMap P)}
    (hwalk : walk c.request registry (nestedBuild heap registry c.ancestors c.request)
      (heap.kept c.request.exclude c.request.schema) c.world = (.ok layers, w)) :
    ∃ t w', c.run heap registry = (.ok t, w') ∧
      (w'.registryAt registry).entries =
        (w.registryAt registry).entries ++ [(c.request.name, t)] := by
  obtain ⟨t, w', hrun, hconstruct⟩ := exists_buildWithin_of_walk hpaths hname hheld hnew hwalk
  exact ⟨t, w', hrun, entries_construct ((walk_grows_nested hwalk).hasRegistry hheld) hconstruct⟩

end Call

/-- A build never fails because a name is in use, whatever has been registered before, and neither
does any call below it. Between the moment in which a call misses its name and the one in which it
registers its type, the registry gets names that start with its name and an underscore, and so are
longer, and no others: the name stays free. If the call passes all its paths, its type is registered
under the name, after these. -/
theorem name_stays_free {w : World P} (hheld : w.HasRegistry registry)
    (request : BuildRequest P) :
    (∀ name, (w.build heap registry request).1 ≠ .error (.duplicateName name)) ∧
    ∀ c, Call.Reaches heap registry ⟨[], request, w⟩ c →
      (∀ name, (c.run heap registry).1 ≠ .error (.duplicateName name)) ∧
      (∀ w', Call.During heap registry c w' →
        ∃ added, (w'.registryAt registry).entries =
            (c.world.registryAt registry).entries ++ added ∧
          (∀ entry ∈ added, IsNestedName c.request.name entry.1 ∧
            c.request.name.length < entry.1.length) ∧
          w'.lookup registry c.request.name = none) ∧
      (heap.paths c.request.schema ≠ [] → c.request.name ≠ "" →
        c.world.lookup registry c.request.name = none →
        ∀ layers w', walk c.request registry (nestedBuild heap registry c.ancestors c.request)
            (heap.kept c.request.exclude c.request.schema) c.world = (.ok layers, w') →
          ∃ t w'', c.run heap registry = (.ok t, w'') ∧
            (w''.registryAt registry).entries =
              (w'.registryAt registry).entries ++ [(c.request.name, t)]) := by
  refine ⟨Call.run_ne_duplicateName ⟨[], request, w⟩ hheld, fun c hreaches ↦ ?_⟩
  have hheld' : c.world.HasRegistry registry := Call.Reaches.hasRegistry_world hheld hreaches
  refine ⟨c.run_ne_duplicateName hheld', fun w' hduring ↦ ?_, ?_⟩
  · obtain ⟨added, hentries, hnames⟩ := hduring.grows.exists_added hheld'
    exact ⟨added, hentries,
      fun entry hentry ↦ ⟨hnames entry hentry, (hnames entry hentry).length_lt⟩,
      hduring.lookup_eq_none hheld'⟩
  · intro hpaths hname hnew layers w' hwalk
    exact Call.exists_run_of_walk hheld' hpaths hname hnew hwalk

/-- Cages that embed rooms under the empty name and birds under an underscore; rooms that embed
birds under the empty name; and birds. -/
def cageHeap : SchemaHeap :=
  ⟨#[some (.ofList
      [("", ⟨.embedded (.shared 1), false⟩), ("_", ⟨.embedded (.shared 2), true⟩)]),
    some (.ofList [("", ⟨.embedded (.shared 2), false⟩)]),
    some (.ofList [("song", ⟨.primitive .string, false⟩)])]⟩

def cageRequest : BuildRequest .none where
  name := "Cage"
  description := none
  classKind := .object
  schema := 0
  exclude := []
  extend := .ready ∅
  props := .ready ∅

/-- A registry in which a type was put under a name that starts as those of cages do. -/
def cageWorld : World .none :=
  ((RegistryUse.register "Cage_x" 0).run 0 (newWorld.addType default)).2

/-- The world when the bird in the room of the cage has been built. -/
def cageRoomWorld : World .none :=
  (walk (cageRequest.nested "" 1) 0
    (nestedBuild cageHeap 0 [("Cage", 0)] (cageRequest.nested "" 1)) (cageHeap.kept [] 1)
      cageWorld).2

/-- The room of a cage is built while the bird in it is registered, under a name that the cage asks
for later. -/
theorem name_stays_free_cage :
    cageWorld.HasRegistry 0 ∧ (cageWorld.registryAt 0).keys = ["Cage_x"] ∧
    (cageWorld.build cageHeap 0 cageRequest).1 ≠ .error (.duplicateName "Cage__") ∧
    ∃ c w', Call.Reaches cageHeap 0 ⟨[], cageRequest, cageWorld⟩ c ∧ c.request.name = "Cage_" ∧
      Call.During cageHeap 0 c w' ∧
      (w'.registryAt 0).keys = ["Cage_x", "Cage__"] ∧ w'.lookup 0 "Cage_" = none ∧
      ∃ t w'', c.run cageHeap 0 = (.ok t, w'') ∧
        (w''.registryAt 0).keys = ["Cage_x", "Cage__", "Cage_"] := by
  have hheld : cageWorld.HasRegistry 0 := by decide +kernel
  have hkept : cageHeap.kept cageRequest.exclude cageRequest.schema =
      [] ++ ("", ⟨.embedded (.shared 1), false⟩) :: [("_", ⟨.embedded (.shared 2), true⟩)] := by
    decide
  have hreaches : Call.Reaches cageHeap 0 ⟨[], cageRequest, cageWorld⟩
      (Call.nested ⟨[], cageRequest, cageWorld⟩ "" 1 cageWorld) :=
    Relation.ReflTransGen.single
      (.nested (by decide) (by decide +kernel) hkept rfl rfl List.not_mem_nil (by decide))
  have hwalk : walk (cageRequest.nested "" 1) 0
      (nestedBuild cageHeap 0 [("Cage", 0)] (cageRequest.nested "" 1)) (cageHeap.kept [] 1)
        cageWorld = (.ok [.field "" (.ofType (.named 1))], cageRoomWorld) :=
    Prod.ext (by with_unfolding_all rfl) rfl
  have hduring : Call.During cageHeap 0 (Call.nested ⟨[], cageRequest, cageWorld⟩ "" 1 cageWorld)
      cageRoomWorld :=
    .walked (by decide) (by decide) (by decide +kernel) (List.append_nil _).symm hwalk
  have hkeys : (cageRoomWorld.registryAt 0).keys = ["Cage_x", "Cage__"] := by decide +kernel
  obtain ⟨hbuild, hcalls⟩ := name_stays_free hheld cageRequest
  obtain ⟨-, hbetween, hend⟩ := hcalls _ hreaches
  obtain ⟨-, -, -, hfree⟩ := hbetween _ hduring
  obtain ⟨t, w'', hrun, hentries⟩ := hend (by decide) (by decide) (by decide +kernel) _ _ hwalk
  refine ⟨hheld, by decide +kernel, hbuild _, _, cageRoomWorld, hreaches, rfl, hduring, hkeys,
    hfree, t, w'', hrun, ?_⟩
  rw [OrderedMap.keys, hentries, List.map_append, ← OrderedMap.keys, hkeys]
  rfl

end DocumentTypes

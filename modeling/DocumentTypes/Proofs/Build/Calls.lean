import DocumentTypes.Proofs.Build.Unfolding
import Mathlib.Data.Set.Card
import Mathlib.Logic.Relation

/-!
The calls that building makes, and how deep they nest. A call makes another one when its walk
passes the kept paths up to one that embeds another living schema, of which no enclosing type is
built (`Call.Makes`), and it depends on no other calls (`Call.buildStep_eq_run`). Along the calls
the enclosing schemas and the current one are pairwise different (`Call.Reaches.distinct`) and
reached from the first schema through links to living schemas (`Call.Reaches.reachable`), so calls
nest at most as deep as there are such schemas, and so many levels of building give the result of
building, whatever stands in for deeper calls.
-/

set_option autoImplicit false

namespace DocumentTypes

namespace SchemaHeap

/-- A path of the schema embeds the target, which lives. -/
def Embeds (heap : SchemaHeap) (schema target : SchemaId) : Prop :=
  ∃ field d link, (field, d) ∈ heap.paths schema ∧ d.element = .embedded link ∧
    link.target = target ∧ heap.isAlive target = true

/-- The schema and those that are reached from it through links to living schemas. -/
def reachable (heap : SchemaHeap) (schema : SchemaId) : Set SchemaId :=
  {target | Relation.ReflTransGen heap.Embeds schema target}

theorem finite_reachable (heap : SchemaHeap) (schema : SchemaId) :
    (heap.reachable schema).Finite := by
  refine (List.finite_toSet (schema :: heap.living)).subset fun target htarget ↦ ?_
  rcases Relation.ReflTransGen.cases_tail htarget with rfl | ⟨_, -, _, _, _, -, -, -, halive⟩
  · exact List.mem_cons_self
  · exact List.mem_cons_of_mem _ (mem_living.mpr halive)

end SchemaHeap

/-- One call of building: the request, the types that enclose it, and the world that it starts
in. -/
structure Call (P : Producers) where
  ancestors : Lineage
  request : BuildRequest P
  world : World P

namespace Call

variable {P : Producers} {heap : SchemaHeap} {registry : RegistryId}

/-- What the call gives, and the world that it leaves. -/
def run (heap : SchemaHeap) (registry : RegistryId) (c : Call P) :
    Except BuildError TypeId × World P :=
  buildWithin heap registry c.ancestors c.request c.world

/-- The call for the type nested under `field`, in a world `w`. -/
def nested (c : Call P) (field : String) (target : SchemaId) (w : World P) : Call P :=
  ⟨c.ancestors ++ [(c.request.name, c.request.schema)], c.request.nested field target, w⟩

/-- A call makes the call for a kept path when its request is valid and new, the walk passes the
paths before it, and the path embeds another living schema of which no enclosing type is built. -/
inductive Makes (heap : SchemaHeap) (registry : RegistryId) (c : Call P) : Call P → Prop
  | nested {before after : List (String × PathDescriptor SchemaLink)} {field : String}
      {d : PathDescriptor SchemaLink} {target : SchemaId} {w : World P}
      {layers : FieldThunk (DeferredField P) (DeferredMap P)}
      (hname : c.request.name ≠ "") (hnew : c.world.lookup registry c.request.name = none)
      (hkept : heap.kept c.request.exclude c.request.schema = before ++ (field, d) :: after)
      (hwalk : walk c.request registry (nestedBuild heap registry c.ancestors c.request) before
        c.world = (.ok layers, w))
      (hother : d.otherSchema? c.request.schema = some target)
      (hcycle : target ∉ c.ancestors.schemas) (halive : heap.isAlive target = true) :
      Makes heap registry c (c.nested field target w)

/-- The calls that are made below a call, itself included. -/
def Reaches (heap : SchemaHeap) (registry : RegistryId) : Call P → Call P → Prop :=
  Relation.ReflTransGen (Makes heap registry)

/-- A call depends on the calls that it makes only. -/
theorem buildStep_eq_run (c : Call P) {build : Builder P}
    (hbuild : ∀ c', Makes heap registry c c' →
      build c'.ancestors c'.request c'.world = c'.run heap registry) :
    buildStep heap registry build c.ancestors c.request c.world = c.run heap registry := by
  rw [run, buildWithin_eq_buildStep, buildStep, buildStep]
  by_cases hempty : (heap.paths c.request.schema).isEmpty = true
  · rw [if_pos hempty, if_pos hempty]
  rw [if_neg hempty, if_neg hempty]
  by_cases hname : c.request.name.isEmpty = true
  · rw [if_pos hname, if_pos hname]
  rw [if_neg hname, if_neg hname]
  cases hnew : c.world.lookup registry c.request.name with
  | some type => rfl
  | none =>
    have hwalks : walk c.request registry (nestedBuild heap registry c.ancestors c.request)
          (heap.kept c.request.exclude c.request.schema) c.world =
        walk c.request registry (nestedStep heap build c.ancestors c.request)
          (heap.kept c.request.exclude c.request.schema) c.world := by
      refine walk_congr fun before field d after layers w hkept hwalk ↦ ?_
      refine pathLayer_congr fun target hself hother ↦ ?_
      unfold nestedBuild nestedStep
      by_cases hcycle : target ∈ c.ancestors.schemas
      · rw [if_pos hcycle, if_pos hcycle]
      rw [if_neg hcycle, if_neg hcycle]
      by_cases halive : heap.isAlive target = true
      · rw [if_pos halive, if_pos halive]
        exact (hbuild _ (Makes.nested (fun h ↦ hname (String.isEmpty_iff.mpr h)) hnew hkept hwalk
          hother hcycle halive)).symm
      · rw [if_neg halive, if_neg halive]
    simp only [hwalks]

section Depth

variable {request : BuildRequest P} {w : World P} {c : Call P}

/-- The enclosing schemas and the current one are pairwise different along the calls. -/
theorem Reaches.distinct (h : Reaches heap registry ⟨[], request, w⟩ c) :
    (c.request.schema :: c.ancestors.schemas).Nodup := by
  induction h with
  | refl => exact List.nodup_singleton _
  | tail _ hmakes ih =>
    obtain ⟨-, -, -, -, hother, hcycle, -⟩ := hmakes
    have hself := (PathDescriptor.otherSchema?_eq_some hother).1
    rw [nested, BuildRequest.nested, Lineage.schemas, List.map_append, List.map_singleton,
      List.nodup_cons]
    refine ⟨?_, List.nodup_append_comm.mp ih⟩
    rw [List.mem_append, List.mem_singleton, not_or]
    exact ⟨hcycle, hself⟩

/-- They are all reached from the first one. -/
theorem Reaches.reachable (h : Reaches heap registry ⟨[], request, w⟩ c) :
    ∀ schema ∈ c.request.schema :: c.ancestors.schemas,
      schema ∈ heap.reachable request.schema := by
  induction h with
  | refl =>
    intro schema hschema
    obtain rfl := List.mem_singleton.mp hschema
    exact Relation.ReflTransGen.refl
  | tail _ hmakes ih =>
    obtain ⟨-, -, hkept, -, hother, -, halive⟩ := hmakes
    obtain ⟨-, link, hlink, htarget⟩ := PathDescriptor.otherSchema?_eq_some hother
    intro schema hschema
    rw [nested, BuildRequest.nested, Lineage.schemas, List.map_append, List.mem_cons,
      List.mem_append, List.map_singleton, List.mem_singleton] at hschema
    rcases hschema with rfl | hancestor | rfl
    · exact (ih _ List.mem_cons_self).tail
        ⟨_, _, link, (SchemaHeap.of_kept_eq_append hkept).1, hlink, htarget, halive⟩
    · exact ih _ (List.mem_cons_of_mem _ hancestor)
    · exact ih _ List.mem_cons_self

/-- Calls nest at most as deep as schemas are reached. -/
theorem Reaches.depth_le (h : Reaches heap registry ⟨[], request, w⟩ c) :
    c.ancestors.length + 1 ≤ (heap.reachable request.schema).ncard := by
  have hsubset : ((c.request.schema :: c.ancestors.schemas).toFinset : Set SchemaId) ⊆
      heap.reachable request.schema :=
    fun schema hschema ↦ h.reachable schema (by simpa using hschema)
  have hcard := Set.ncard_le_ncard hsubset (heap.finite_reachable request.schema)
  rwa [Set.ncard_coe_finset, List.toFinset_card_of_nodup h.distinct, List.length_cons,
    Lineage.schemas, List.length_map] at hcard

/-- As many levels of building as schemas are left to enclose give what a call gives. The induction
is on the levels: a call that is made is one level down and has one more enclosing schema. -/
theorem iterate_buildStep_eq_run (build : Builder P) (levels : Nat)
    (h : Reaches heap registry ⟨[], request, w⟩ c)
    (hlevels : (heap.reachable request.schema).ncard ≤ levels + c.ancestors.length) :
    (buildStep heap registry)^[levels] build c.ancestors c.request c.world =
      c.run heap registry := by
  induction levels generalizing c with
  | zero =>
    have hdepth := h.depth_le
    omega
  | succ levels ih =>
    rw [Function.iterate_succ_apply']
    refine buildStep_eq_run c fun c' hmakes ↦ ih (h.tail hmakes) ?_
    obtain ⟨-, -, -, -, -, -, -⟩ := hmakes
    rw [nested, List.length_append, List.length_singleton]
    omega

end Depth

end Call

/-- Building ends, for every heap, registry and request. Along its calls the enclosing schemas and
the current one are pairwise different, so that calls nest at most as deep as there are schemas
that are reached from the requested one. That many levels of building give what building gives,
whatever `build` stands in for the calls below them. -/
theorem build_ends_within_reachable {P : Producers} (heap : SchemaHeap) (registry : RegistryId)
    (request : BuildRequest P) (w : World P) :
    (∀ c, Call.Reaches heap registry ⟨[], request, w⟩ c →
      (c.request.schema :: c.ancestors.schemas).Nodup ∧
        c.ancestors.length + 1 ≤ (heap.reachable request.schema).ncard) ∧
    ∀ (build : Builder P) (more : Nat),
      (buildStep heap registry)^[(heap.reachable request.schema).ncard + more] build [] request w =
        w.build heap registry request := by
  constructor
  · intro c hcall
    exact ⟨hcall.distinct, hcall.depth_le⟩
  · intro build more
    exact Call.iterate_buildStep_eq_run build _ Relation.ReflTransGen.refl (Nat.le_add_right _ more)

/-- The home of an animal is built inside of the animal, two levels deep. -/
theorem build_ends_within_reachable_animal :
    ∃ c, Call.Reaches animalHeap 0 ⟨[], animalRequest, newWorld⟩ c ∧
      c.request.schema :: c.ancestors.schemas = [1, 0] ∧ [1, 0].Nodup ∧
      2 ≤ (animalHeap.reachable 0).ncard ∧
      ∀ build : Builder .none, (buildStep animalHeap 0)^[(animalHeap.reachable 0).ncard] build []
        animalRequest newWorld = newWorld.build animalHeap 0 animalRequest := by
  have hkept : animalHeap.kept animalRequest.exclude animalRequest.schema =
      [("name", ⟨.primitive .string, false⟩)] ++ ("home", ⟨.embedded (.shared 1), false⟩) ::
        [("young", ⟨.embedded (.cyclic 0), true⟩), ("owner", ⟨.reference "Person", false⟩)] := by
    decide
  have hmakes : Call.Makes animalHeap 0 ⟨[], animalRequest, newWorld⟩
      (Call.nested ⟨[], animalRequest, newWorld⟩ "home" 1 newWorld) :=
    .nested (by decide) (by decide) hkept rfl rfl List.not_mem_nil (by decide)
  have hreaches : Call.Reaches animalHeap 0 ⟨[], animalRequest, newWorld⟩
      (Call.nested ⟨[], animalRequest, newWorld⟩ "home" 1 newWorld) :=
    Relation.ReflTransGen.single hmakes
  obtain ⟨hcalls, hlevels⟩ := build_ends_within_reachable animalHeap 0 animalRequest newWorld
  obtain ⟨hdistinct, hdepth⟩ := hcalls _ hreaches
  exact ⟨_, hreaches, rfl, hdistinct, hdepth, fun build ↦ hlevels build 0⟩

end DocumentTypes

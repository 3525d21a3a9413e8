import DocumentTypes.Proofs.Build.Replay
import DocumentTypes.Proofs.Build.WriteOnce

/-!
Building again. A name that is registered keeps its type, whatever happens to the registry, and a
request with that name is answered by it before anything but its name and schema is looked at
(`History.build_eq_registered`). So declarations that were built once are built again by finding
their types, one after the other (`Definitions.buildEach_again`), and nothing is registered.
-/

set_option autoImplicit false

namespace DocumentTypes

open World

variable {P : Producers} {heap heap' : SchemaHeap} {registry : RegistryId}

/-- A registered name answers every request for it with a schema that has paths. -/
theorem History.build_eq_registered {request : BuildRequest P} {w w' : World P} {t : TypeId}
    (h : History registry w w') (hheld : w'.HasRegistry registry)
    (hlookup : w.lookup registry request.name = some t) (hname : request.name ≠ "")
    (hpaths : heap.paths request.schema ≠ []) :
    w'.build heap registry request = (.ok t, w') :=
  buildWithin_of_lookup hpaths hname (h.later.lookup hheld hlookup)

namespace Definitions

variable {definitions : Definitions} {declaration : TypeDeclaration}
  {declarations : List TypeDeclaration} {w w' v : World P}

/-- The schemas of the definitions are the same in both heaps. -/
def SameSchemas (definitions : Definitions) (heap heap' : SchemaHeap) : Prop :=
  ∀ name id, definitions.schemas.lookup? name = some id → heap'.lookup? id = heap.lookup? id

/-- A declaration that was built is built again, later, by finding its type. -/
theorem buildOne_again {t : TypeId} (hsame : definitions.SameSchemas heap heap')
    (hheld : w.HasRegistry registry)
    (hbuild : definitions.buildOne heap registry declaration w = (.ok t, w')) (hlater : Later w' v)
    (hheld' : v.HasRegistry registry) :
    definitions.buildOne heap' registry declaration v = (.ok t, v) := by
  obtain ⟨request, hrequest, hrun⟩ := buildOne_eq_ok hbuild
  obtain ⟨-, hschema, -, -⟩ := request_eq_ok hrequest
  obtain ⟨hpaths, hname, -⟩ := buildWithin_eq_ok hrun
  have hpaths' : heap'.paths request.schema ≠ [] := by
    rwa [SchemaHeap.paths, hsame _ _ hschema, ← SchemaHeap.paths]
  have hfound := hlater.lookup hheld' (lookup_buildWithin hheld hrun)
  have hagain : v.build heap' registry request = (.ok t, v) :=
    buildWithin_of_lookup hpaths' hname hfound
  rw [buildOne, hrequest]
  dsimp only
  rw [hagain]

/-- Declarations that were built are built again, later, by finding their types. The induction is on
the declarations: what is later than the end is later than where each of them was built. -/
theorem buildEach_again {types : List TypeId} (hsame : definitions.SameSchemas heap heap')
    (hheld : w.HasRegistry registry)
    (hbuild : definitions.buildEach heap registry declarations w = (.ok types, w'))
    (hlater : Later w' v) (hheld' : v.HasRegistry registry) :
    definitions.buildEach heap' registry declarations v = (.ok types, v) := by
  induction declarations generalizing w types with
  | nil =>
    obtain ⟨htypes, -⟩ := Prod.mk.inj hbuild
    rw [← Except.ok.inj htypes]
    rfl
  | cons declaration declarations ih =>
    obtain ⟨t, w₁, more, hfirst, hrest, rfl⟩ := buildEach_cons_eq_ok hbuild
    obtain ⟨-, hheld₁⟩ := buildOne_later hheld hfirst
    obtain ⟨hgrown, -⟩ := buildEach_later hheld₁ hrest
    have hagain := buildOne_again hsame hheld hfirst (hgrown.trans hlater) hheld'
    rw [buildEach, hagain]
    dsimp only
    rw [ih hheld₁ hrest]

end Definitions

/-- Building is idempotent for each name, after any history of a registry. Once a name is
registered, every request for it with a schema that has paths is answered with the same type, and
nothing changes. So when all declared types were built, and after the registry has been used in any
way, all of them are built again with the same types in the same order, and nothing changes. The
schemas may be found in another heap by then. -/
theorem building_again_changes_nothing {P : Producers} (registry : RegistryId) :
    (∀ (heap : SchemaHeap) (request : BuildRequest P) (w w' : World P) (t : TypeId),
      History registry w w' → w'.HasRegistry registry →
      w.lookup registry request.name = some t → request.name ≠ "" →
      heap.paths request.schema ≠ [] →
      w'.build heap registry request = (.ok t, w')) ∧
    ∀ (definitions : Definitions) (heap heap' : SchemaHeap) (w w₁ w₂ : World P)
      (types : List TypeId), definitions.SameSchemas heap heap' → w.HasRegistry registry →
      definitions.buildAll heap registry w = (.ok types, w₁) →
      History registry w₁ w₂ → w₂.HasRegistry registry →
      definitions.buildAll heap' registry w₂ = (.ok types, w₂) := by
  constructor
  · intro heap request w w' t hhistory hheld hlookup hname hpaths
    exact hhistory.build_eq_registered hheld hlookup hname hpaths
  · intro definitions heap heap' w w₁ w₂ types hsame hheld hbuild hhistory hheld'
    exact Definitions.buildEach_again hsame hheld hbuild hhistory.later hheld'

/-- A schema with a path of an unknown kind. -/
def blobHeap : SchemaHeap :=
  ⟨#[some (.ofList [("key", ⟨.primitive (.other "blob"), false⟩)])]⟩

/-- Pets with homes, the type of their homes, and the pets once more, as places. -/
def homesDocument : Json :=
  .object [("schemas", .object
      [("Animal", .object [("home", .object [("schema", .string "Place")])]),
      ("Place", .object [("city", .string "String")])]),
    ("types", .array
      [.object [("name", .string "Pet"), ("schema", .string "Animal"),
          ("class", .string "object")],
        .object [("name", .string "Pet_home"), ("schema", .string "Place"),
          ("class", .string "object")],
        .object [("name", .string "Pet"), ("schema", .string "Place"),
          ("class", .string "interface")]])]

/-- The animals are found by a request for a schema that cannot be built. The pets and their homes
are built again after the persons. -/
theorem building_again_changes_nothing_pet :
    (∃ w, History 0 personWorld w ∧ w.HasRegistry 0 ∧ personWorld.lookup 0 "Animal" = some 1 ∧
      w.build blobHeap 0 { animalRequest with classKind := .inputObject } = (.ok 1, w)) ∧
    ∃ definitions heap w₁ w₂, Definitions.ofJson .empty homesDocument = .ok (definitions, heap) ∧
      definitions.buildAll heap 0 newWorld = (.ok [1, 0, 1], w₁) ∧
      History 0 w₁ w₂ ∧ w₂.lookup 0 "Person" = some 2 ∧
      definitions.buildAll heap 0 w₂ = (.ok [1, 0, 1], w₂) := by
  obtain ⟨hanswers, hagain⟩ := building_again_changes_nothing (P := .none) 0
  constructor
  · obtain ⟨hrun, hheld⟩ := history_owner
    exact ⟨_, hrun, hheld, lookup_animal, hanswers blobHeap
      { animalRequest with classKind := .inputObject } _ _ 1 hrun hheld lookup_animal (by decide)
      (by decide)⟩
  · have hresult : (Definitions.ofJson .empty homesDocument).map (fun loaded ↦
        ((loaded.1.buildAll loaded.2 0 newWorld).1,
          ((loaded.1.buildAll loaded.2 0 newWorld).2.build animalHeap 0 personRequest).2.lookup 0
            "Person")) = .ok (.ok [1, 0, 1], some 2) := by with_unfolding_all rfl
    obtain ⟨definitions, heap, hload, hresult⟩ := Definitions.exists_of_map_ofJson hresult
    obtain ⟨htypes, hperson⟩ := Prod.mk.inj hresult
    have hheld : newWorld.HasRegistry 0 := by decide
    have hbuild : definitions.buildAll heap 0 newWorld =
        (.ok [1, 0, 1], (definitions.buildAll heap 0 newWorld).2) := Prod.ext htypes rfl
    have hheld₁ := (Definitions.buildEach_later hheld hbuild).2
    have hrun : History 0 (definitions.buildAll heap 0 newWorld).2
        ((definitions.buildAll heap 0 newWorld).2.build animalHeap 0 personRequest).2 :=
      .use .start hheld₁ (.build animalHeap personRequest) trivial
    exact ⟨definitions, heap, _, _, hload, hbuild, hrun, hperson,
      hagain definitions heap heap _ _ _ _ (fun _ _ _ ↦ rfl) hheld hbuild hrun
        (later_build hheld₁ rfl).2⟩

end DocumentTypes

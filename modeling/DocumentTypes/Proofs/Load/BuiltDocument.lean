import DocumentTypes.Proofs.Build.Declarations
import DocumentTypes.Proofs.Load.LoadedDocument

/-!
Building the types of a loaded document. In the heap the schemas of a document come after the ones
that they embed (`Materialized.Faithful.descends`), so building never closes a cycle: the errors of
the whole build are faults of single declarations. Afterwards, and for as long as the registry is
held, the fields of a type that was registered fail only for a reference to a name that is not
registered, and the error names that type (`build_of_loaded`).
-/

set_option autoImplicit false

namespace DocumentTypes

open World

/-- Schemas of a document embed schemas of the document, and those that are other ones come
before. -/
theorem Materialized.Faithful.descends {schemas : DeclaredSchemas} {m : Materialized}
    (h : m.Faithful schemas) :
    m.heap.Descends fun id ↦ ∃ name, m.built.lookup? name = some id := by
  rintro id ⟨name, hname⟩ ⟨field, d⟩ hpath target hother
  obtain ⟨fields, schema, -, hlives, hsame⟩ := h.mirrored name id hname
  have hfield : schema.lookup? field = some d := by
    rw [SchemaHeap.paths, hlives] at hpath
    exact OrderedMap.mem_entries_iff.mp hpath
  obtain ⟨_, -, described, -, hlinked⟩ := hsame.exists_left hfield
  obtain ⟨hne, link, hlink, rfl⟩ := PathDescriptor.otherSchema?_eq_some hother
  cases hlinked with
  | primitive kind isArray => exact absurd hlink (by simp)
  | reference typeName isArray => exact absurd hlink (by simp)
  | itself isArray =>
    obtain rfl := Element.embedded.inj hlink
    exact absurd rfl hne
  | other isArray _ htarget hbefore =>
    obtain rfl := Element.embedded.inj hlink
    exact ⟨⟨_, htarget⟩, hbefore⟩

/-- What descends in a heap descends in every heap with the same schemas at these places. -/
theorem SchemaHeap.Descends.of_lookup?_eq {heap heap' : SchemaHeap} {held : SchemaId → Prop}
    (h : heap.Descends held) (hsame : ∀ id, held id → heap'.lookup? id = heap.lookup? id) :
    heap'.Descends held := by
  intro id hid path hpath
  rw [SchemaHeap.paths, hsame id hid] at hpath
  exact h id hid path hpath

variable {P : Producers} {registry : RegistryId}

/-- Building all types of a loaded document in an empty registry gives no other error than the fault
of a declaration. In every world afterwards that holds the registry, also when the build failed, the
types that it registered have the names that they are registered under, and their fields can only
fail for a reference to a name that is not registered, with an error that names the type. -/
theorem build_of_loaded {value : Json} {heap loaded heap' : SchemaHeap} {definitions : Definitions}
    (hload : Definitions.ofJson heap value = .ok (definitions, loaded))
    (hheld : ∀ name id, definitions.schemas.lookup? name = some id →
      heap'.lookup? id = loaded.lookup? id)
    {w w' : World P} (halive : w.HasRegistry registry) (hempty : w.registryAt registry = ∅)
    {result : Except LoadError (List TypeId)}
    (hbuild : definitions.buildAll heap' registry w = (result, w')) :
    (∀ e, result = .error e → DeclarationFault e) ∧
      ∀ later, Later w' later → later.HasRegistry registry →
        ∀ name t, w'.lookup registry name = some t → (later.typeAt t).name = name ∧
          ∀ (σ : Type) (outside : Outside P σ) (s : σ) (e : BuildError),
            (later.fields outside t s).1 = .error e →
            ∃ reference, e = .unresolvedReference reference (later.typeAt t).name ∧
              reference ∉ (later.registryAt registry).keys := by
  obtain ⟨document, -, -, -, -, hfaithful⟩ := Definitions.ofJson_ok hload
  constructor
  · rintro e rfl
    have hdescends : heap'.Descends fun id ↦ ∃ name, definitions.schemas.lookup? name = some id :=
      hfaithful.descends.of_lookup?_eq fun id ⟨name, hname⟩ ↦ hheld name id hname
    exact Definitions.buildEach_error hdescends (fun name id hid ↦ ⟨name, hid⟩) halive hbuild
  · intro later hlater halive' name t hlookup
    have hclosed : w'.Closed registry :=
      Definitions.buildEach_closed halive (closed_of_registryAt_eq_empty hempty) hbuild
    have htype := (hclosed name t hlookup).later hlater halive'
    refine ⟨htype.name_eq, fun σ outside s e hfields ↦ ?_⟩
    rw [htype.name_eq]
    rcases htype.fields_cases ⟨name, hlater.lookup halive' hlookup⟩ outside s with
      ⟨e', hrun, reference, rfl, hmissing⟩ | ⟨fields, hrun, -⟩
    · rw [hrun] at hfields
      exact ⟨reference, (Except.error.inj hfields).symm, lookup_eq_none_iff.mp hmissing⟩
    · rw [hrun] at hfields
      exact absurd hfields (by simp)

/-- Animals with their young and their owners, where the owners are declared nowhere. -/
def ownedDocument : Json :=
  .object [("schemas", .object
      [("Animal", .object [("home", .object [("schema", .string "Place")]),
        ("young", .array [.object [("schema", .string "Animal")]]),
        ("owner", .object [("ref", .string "Person")])]),
      ("Place", .object [("city", .string "String")])]),
    ("types", .array
      [.object [("name", .string "Pet"), ("schema", .string "Animal"),
        ("class", .string "object")]])]

/-- The pets are built, and their fields miss the owners. -/
theorem build_of_loaded_owned :
    ∃ definitions heap w, Definitions.ofJson .empty ownedDocument = .ok (definitions, heap) ∧
      definitions.buildAll heap 0 newWorld = (.ok [1], w) ∧ w.lookup 0 "Pet" = some 1 ∧
      (w.fields Outside.none 1 ()).1 = .error (.unresolvedReference "Person" "Pet") ∧
      "Person" ∉ (w.registryAt 0).keys := by
  have hresult : (Definitions.ofJson .empty ownedDocument).map (fun loaded ↦
      ((loaded.1.buildAll loaded.2 0 newWorld).1,
        (loaded.1.buildAll loaded.2 0 newWorld).2.lookup 0 "Pet",
        ((loaded.1.buildAll loaded.2 0 newWorld).2.fields Outside.none 1 ()).1)) =
      .ok (.ok [1], some 1, .error (.unresolvedReference "Person" "Pet")) := by
    with_unfolding_all rfl
  obtain ⟨definitions, heap, hload, hresult⟩ := Definitions.exists_of_map_ofJson hresult
  obtain ⟨htypes, hrest⟩ := Prod.mk.inj hresult
  obtain ⟨hpet, hfields⟩ := Prod.mk.inj hrest
  have halive : newWorld.HasRegistry 0 := by decide
  have hempty : newWorld.registryAt 0 = ∅ := rfl
  have hbuild : definitions.buildAll heap 0 newWorld =
      (.ok [1], (definitions.buildAll heap 0 newWorld).2) := Prod.ext htypes rfl
  obtain ⟨-, hafter⟩ := build_of_loaded hload (fun _ _ _ ↦ rfl) halive hempty hbuild
  have halive' := (Definitions.buildEach_later halive hbuild).2
  obtain ⟨-, hfails⟩ := hafter _ (Later.refl _) halive' "Pet" 1 hpet
  obtain ⟨reference, herror, hmissing⟩ := hfails Unit Outside.none () _ hfields
  obtain ⟨rfl, -⟩ := BuildError.unresolvedReference.inj herror
  exact ⟨definitions, heap, _, hload, hbuild, hpet, hfields, hmissing⟩

end DocumentTypes

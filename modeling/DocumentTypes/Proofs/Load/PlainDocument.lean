import DocumentTypes.Proofs.Build.BuiltInOrder
import DocumentTypes.Proofs.Load.BuiltDocument

/-!
Documents without underscores. When the types that a document declares have different names, and
neither these nor the written fields have underscores, the requests of the declarations are plain:
the schemas that are embedded at any depth are schemas of the document (`Descends.held_of_unfolds`).
If all types can be built in an empty registry, they are then built faithfully, each from its own
declaration, with the types nested in it.
-/

set_option autoImplicit false

namespace DocumentTypes

open World

variable {P : Producers} {heap : SchemaHeap} {registry : RegistryId}

namespace Definitions

variable {definitions : Definitions} {declaration : TypeDeclaration} {request : BuildRequest P}

/-- The request asks for what is declared. -/
structure Asks (definitions : Definitions) (registry : RegistryId) (declaration : TypeDeclaration)
    (request : BuildRequest P) : Prop where
  name : request.name = declaration.name
  description : request.description = declaration.description
  classKind : ClassKind.ofName declaration.className = .ok request.classKind
  schema : definitions.schemas.lookup? declaration.schema = some request.schema
  exclude : request.exclude = declaration.exclude
  extend : typeMapSource declaration.extend registry declaration.name = .ok request.extend
  props : typeMapSource declaration.props registry declaration.name = .ok request.props

theorem asks_of_request (h : definitions.request declaration registry = .ok request) :
    definitions.Asks registry declaration request := by
  unfold Definitions.request at h
  split at h
  · exact absurd h (by simp)
  · next schema hschema =>
    split at h
    · exact absurd h (by simp)
    · next classKind hclass =>
      split at h
      · exact absurd h (by simp)
      · next extend hextend =>
        split at h
        · exact absurd h (by simp)
        · next props hprops =>
          obtain rfl := Except.ok.inj h
          exact ⟨rfl, rfl, hclass, hschema, rfl, hextend, hprops⟩

/-- Declarations that can be built are built in order, each by its request. -/
theorem exists_builtInOrder {declarations : List TypeDeclaration} {types : List TypeId}
    {w w' : World P} (h : definitions.buildEach heap registry declarations w = (.ok types, w')) :
    ∃ requests, List.Forall₂ (definitions.Asks registry) declarations requests ∧
      BuiltInOrder heap registry requests types w w' := by
  induction declarations generalizing w types with
  | nil =>
    obtain ⟨htypes, rfl⟩ := Prod.mk.inj h
    obtain rfl := Except.ok.inj htypes
    exact ⟨[], .nil, .nil w⟩
  | cons declaration rest ih =>
    obtain ⟨t, w₁, others, hfirst, hrest, rfl⟩ := buildEach_cons_eq_ok h
    obtain ⟨requests, hasks, hbuilt⟩ := ih hrest
    obtain ⟨request, hrequest, hbuild⟩ := buildOne_eq_ok hfirst
    exact ⟨request :: requests, .cons (asks_of_request hrequest) hasks, .cons hbuild hbuilt⟩

end Definitions

/-- The schemas at the positions of a request for a schema of the document are schemas of the
document. -/
theorem SchemaHeap.Descends.held_of_unfolds {held : SchemaId → Prop}
    (hdescends : heap.Descends held) {request r : BuildRequest P} {path : List String}
    (hheld : held request.schema) (h : request.Unfolds heap path r) : held r.schema := by
  induction h with
  | root => exact hheld
  | nested _ hkept hother ih =>
    exact (hdescends _ ih _ (SchemaHeap.mem_kept.mp hkept).1 _ hother).1

/-- The schemas of definitions that mirror a document have the written fields. -/
theorem Definitions.Mirrors.mem_keys {definitions : Definitions} {value : Json}
    (h : definitions.Mirrors heap value) {name : String} {id : SchemaId}
    (hid : definitions.schemas.lookup? name = some id) {path : String × PathDescriptor SchemaLink}
    (hpath : path ∈ heap.paths id) :
    ∃ written, value.declaredSchemas.lookup? name = some written ∧ path.1 ∈ written.keys := by
  obtain ⟨written, hwritten, schema, hlives, hsame⟩ := h.schemas.exists_left hid
  refine ⟨written, hwritten, ?_⟩
  rw [SchemaHeap.paths, hlives] at hpath
  rw [OrderedMap.Related.keys_eq hsame]
  exact List.mem_map_of_mem hpath

/-- A document without underscores is built faithfully. When its types have different names, no
underscore stands in these or in the written fields, and all types can be built in an empty
registry, the types that are given were generated from the declarations, in order. Every position
below a declaration has a type of its own, with the class and the exclusions of the declaration, and
the registry holds nothing else. -/
theorem plain_document_built_faithfully {value : Json} {heap loaded heap' : SchemaHeap}
    {definitions : Definitions}
    (hload : Definitions.ofJson heap value = .ok (definitions, loaded))
    (hheld : ∀ name id, definitions.schemas.lookup? name = some id →
      heap'.lookup? id = loaded.lookup? id)
    (hdistinct : (definitions.types.map TypeDeclaration.name).Nodup)
    (hnames : ∀ declaration ∈ definitions.types, IsPlainName declaration.name)
    (hfields : ∀ schema written, value.declaredSchemas.lookup? schema = some written →
      ∀ field ∈ written.keys, IsPlainName field)
    {w w' : World P} (halive : w.HasRegistry registry) (hempty : w.registryAt registry = ∅)
    {types : List TypeId} (hbuild : definitions.buildAll heap' registry w = (.ok types, w')) :
    ∃ (requests : List (BuildRequest P)) (place : Position → TypeId),
      List.Forall₂ (definitions.Asks registry) definitions.types requests ∧
      types = (List.range definitions.types.length).map (fun k ↦ place (k, [])) ∧
      BuiltFaithfully heap' registry requests w w' place := by
  obtain ⟨document, -, -, -, -, hfaithful⟩ := Definitions.ofJson_ok hload
  have hmirrors := loaded_mirrors_document hload
  have hdescends : heap'.Descends fun id ↦ ∃ name, definitions.schemas.lookup? name = some id :=
    hfaithful.descends.of_lookup?_eq fun id ⟨name, hname⟩ ↦ hheld name id hname
  obtain ⟨requests, hasks, hbuilt⟩ := Definitions.exists_builtInOrder hbuild
  have hrequestNames : requests.map BuildRequest.name =
      definitions.types.map TypeDeclaration.name := by
    have hsame : List.Forall₂ (· = ·) (requests.map BuildRequest.name)
        (definitions.types.map TypeDeclaration.name) :=
      List.forall₂_map_left_iff.mpr (List.forall₂_map_right_iff.mpr
        (hasks.flip.imp fun _ _ hrequest ↦ hrequest.name))
    rwa [List.forall₂_eq_eq_eq] at hsame
  have hplain : PlainRequests heap' requests := by
    refine ⟨hrequestNames ▸ hdistinct, fun request hmem ↦ ?_, fun request hmem ↦ ?_⟩
    · obtain ⟨declaration, hdeclaration, hrequest⟩ := exists_partner_of_mem hasks.flip hmem
      exact hrequest.name ▸ hnames declaration hdeclaration
    · obtain ⟨declaration, hdeclaration, hrequest⟩ := exists_partner_of_mem hasks.flip hmem
      intro path r hunfolds field hfield
      obtain ⟨name, hname⟩ := hdescends.held_of_unfolds ⟨_, hrequest.schema⟩ hunfolds
      have hpath := (SchemaHeap.mem_kept.mp hfield).1
      rw [SchemaHeap.paths, hheld name _ hname] at hpath
      obtain ⟨written, hwritten, hkey⟩ := hmirrors.mem_keys hname hpath
      exact hfields name written hwritten _ hkey
  refine ⟨requests, w'.typeAtPosition registry requests, hasks, ?_,
    hbuilt.builtFaithfully hplain halive hempty⟩
  rw [hasks.length_eq]
  exact hbuilt.types_eq halive

/-- Pets and strays, which are animals. Strays have no owners, and who owns a pet is a person, who
lives in a place as the animals do. -/
def petDocument : Json :=
  .object [("schemas", .object
      [("Animal", .object [("home", .object [("schema", .string "Place")]),
        ("young", .array [.object [("schema", .string "Animal")]]),
        ("owner", .object [("ref", .string "Person")])]),
      ("Place", .object [("city", .string "String")])]),
    ("types", .array
      [.object [("name", .string "Pet"), ("schema", .string "Animal"),
        ("class", .string "object")],
      .object [("name", .string "Stray"), ("schema", .string "Animal"),
        ("class", .string "input"), ("exclude", .array [.string "owner"])],
      .object [("name", .string "Person"), ("schema", .string "Place"),
        ("class", .string "object")]])]

/-- Pets and strays have homes of their own: these are the two nested positions. -/
theorem pet_document_built_faithfully :
    ∃ definitions heap w, Definitions.ofJson .empty petDocument = .ok (definitions, heap) ∧
      definitions.buildAll heap 0 newWorld = (.ok [1, 3, 4], w) ∧
      ∃ (requests : List (BuildRequest .none)) (place : Position → TypeId),
        List.Forall₂ (definitions.Asks 0) definitions.types requests ∧
        BuiltFaithfully heap 0 requests newWorld w place ∧
        place (0, []) = 1 ∧ place (1, []) = 3 ∧ place (2, []) = 4 ∧
        {p ∈ positions heap requests | p.2 ≠ []}.ncard = 2 := by
  have hresult : (Definitions.ofJson .empty petDocument).map (fun loaded ↦
      (loaded.1.types.map TypeDeclaration.name,
        (loaded.1.buildAll loaded.2 0 newWorld).1,
        ((loaded.1.buildAll loaded.2 0 newWorld).2.registryAt 0).keys)) =
      .ok (["Pet", "Stray", "Person"], .ok [1, 3, 4],
        ["Pet_home", "Pet", "Stray_home", "Stray", "Person"]) := by with_unfolding_all rfl
  obtain ⟨definitions, heap, hload, hresult⟩ := Definitions.exists_of_map_ofJson hresult
  obtain ⟨hnames, hrest⟩ := Prod.mk.inj hresult
  obtain ⟨htypes, hkeys⟩ := Prod.mk.inj hrest
  have hbuild : definitions.buildAll heap 0 newWorld =
      (.ok [1, 3, 4], (definitions.buildAll heap 0 newWorld).2) := Prod.ext htypes rfl
  have hfields : ∀ entry ∈ petDocument.declaredSchemas.entries, ∀ field ∈ entry.2.keys,
      IsPlainName field := by decide
  have hplain : ∀ name ∈ definitions.types.map TypeDeclaration.name, IsPlainName name := by
    rw [hnames]
    decide
  obtain ⟨requests, place, hasks, hplaces, hfaithful⟩ :=
    plain_document_built_faithfully hload (fun _ _ _ ↦ rfl) (by rw [hnames]; decide)
      (fun declaration hmem ↦ hplain _ (List.mem_map_of_mem hmem))
      (fun schema written hlookup ↦ hfields _ (OrderedMap.mem_entries_iff.mpr hlookup))
      (by decide) rfl hbuild
  have hlength : definitions.types.length = 3 := by simpa using congrArg List.length hnames
  have hroots : [1, 3, 4] = [place (0, []), place (1, []), place (2, [])] := by
    rwa [hlength] at hplaces
  obtain ⟨hpet, hrest⟩ := List.cons.inj hroots
  obtain ⟨hstray, hrest⟩ := List.cons.inj hrest
  obtain ⟨hperson, -⟩ := List.cons.inj hrest
  have hentries : ((definitions.buildAll heap 0 newWorld).2.registryAt 0).entries.length = 5 := by
    simpa [OrderedMap.keys] using congrArg List.length hkeys
  have hsize := hfaithful.size
  rw [hentries, ← hasks.length_eq, hlength] at hsize
  exact ⟨definitions, heap, _, hload, hbuild, requests, place, hasks, hfaithful, hpet.symm,
    hstray.symm, hperson.symm, by omega⟩

end DocumentTypes

import DocumentTypes.Proofs.Load.LoadedDocument

/-!
Which errors are left for a document without violations. Every field is read as the form that it
has, so the loader finds the document readable, its arrays of the right length and the schemas that
it asks for declared. What can still be wrong is which schemas embed which (`IsEmbeddingFault`), in
every call that puts a schema into the heap (`materialize_isEmbeddingFault`) and in loading as a
whole (`decodes_of_violations_eq_nil`).
-/

set_option autoImplicit false

namespace DocumentTypes

/-- The errors about embeddings: a field embeds a schema that is not declared, or embeddings go
round. -/
inductive IsEmbeddingFault : LoadError → Prop
  | unknownSchema (schema owner field : String) :
      IsEmbeddingFault (.unknownSchema schema (.field owner field))
  | embeddingCycle (path : List String) : IsEmbeddingFault (.embeddingCycle path)

variable {schemas : DeclaredSchemas} {value : Json} {m : Materialized} {e : LoadError}

theorem Embedding.Refutes.isEmbeddingFault {E : Embedding} {names : List String}
    (h : E.Refutes names e) : IsEmbeddingFault e := by
  cases h with
  | unknownSchema hembeds hunknown => exact .unknownSchema _ _ _
  | embeddingCycle hlength hclosed hnodup hchain => exact .embeddingCycle _

/-- A declared schema whose fields all declare descriptors fails with an embedding, whatever schemas
are being resolved around it. -/
theorem materialize_isEmbeddingFault (hreadable : schemas.Readable) (stack : List String)
    (name : String) (hname : name ∈ schemas.keys)
    (h : materialize schemas stack name m = .error e) : IsEmbeddingFault e := by
  induction stack, name using materialize_induction schemas generalizing m with
  | step stack name ih =>
    rcases materialize_eq_error h with ⟨-, rfl⟩ |
      ⟨hnew, ⟨hunknown, -⟩ | ⟨fields, hfields, hfailed⟩⟩
    · exact .embeddingCycle _
    · exact absurd hname (OrderedMap.lookup?_eq_none_iff.mp hunknown)
    · obtain ⟨field, declared, m₁, hmem, hfield⟩ := resolveFields_eq_error hfailed
      obtain ⟨schema, isArray, -, htarget⟩ := resolveField_eq_error hfield
        (hreadable name field fields declared hfields (OrderedMap.mem_entries_iff.mp hmem))
      obtain ⟨-, ⟨-, rfl⟩ | ⟨hknown, hfailed'⟩⟩ := embedTarget_eq_error htarget
      · exact .unknownSchema _ _ _
      · exact ih schema hname hnew hknown hfailed'

/-- A document without violations can be read. Its schemas are read in their order, and each field
as the content of the one form that it has. No call for a declared schema, and so no loading of the
document, finds an array of the wrong length or a schema that is asked for but not declared. -/
theorem decodes_of_violations_eq_nil (heap : SchemaHeap)
    (hvalid : Grammar.violations value = []) :
    ∃ document, Document.ofJson? value = some document ∧
      value.declaredSchemas.Related (fun _ written declared ↦
        written.Related (fun _ ↦ Json.ReadAs) declared) document.schemas ∧
      (∀ stack name m e, name ∈ document.schemas.keys →
        materialize document.schemas stack name m = .error e → IsEmbeddingFault e) ∧
      ∀ e, Definitions.ofJson heap value = .error e → IsEmbeddingFault e := by
  obtain ⟨document, hread, hsame⟩ := exists_document_readAs hvalid
  refine ⟨document, hread, hsame, fun stack name m e hname hfailed ↦ ?_, fun e hfailed ↦ ?_⟩
  · refine materialize_isEmbeddingFault (fun owner field fields declared hfields hdeclared ↦ ?_)
      stack name hname hfailed
    obtain ⟨written, -, hwritten⟩ := hsame.exists_left hfields
    obtain ⟨item, -, hreadAs⟩ := hwritten.exists_left hdeclared
    obtain ⟨d, -, hd⟩ := hreadAs.exists_descriptor
    exact ⟨d, hd⟩
  · exact (Definitions.ofJson_error hvalid hfailed).isEmbeddingFault

/-- An author embeds books, and a book embeds its author. Fields of all forms are written, and no
schema can be put into a heap before the other. -/
def libraryDocument : Json :=
  .object [("schemas", .object
    [("Author", .object [("name", .string "String"),
        ("books", .array [.object [("schema", .string "Book")]])]),
      ("Book", .object [("title", .string "String"),
        ("author", .object [("schema", .string "Author")]),
        ("publisher", .object [("ref", .string "Publisher")])])])]

/-- The document can be read, and loading it fails only with its embeddings. -/
theorem libraryDocument_decodes :
    Grammar.violations libraryDocument = [] ∧
    Definitions.ofJson .empty libraryDocument =
      .error (.embeddingCycle ["Author", "Book", "Author"]) ∧
    ∃ document, Document.ofJson? libraryDocument = some document ∧
      libraryDocument.declaredSchemas.Related (fun _ written declared ↦
        written.Related (fun _ ↦ Json.ReadAs) declared) document.schemas ∧
      (∀ stack name m e, name ∈ document.schemas.keys →
        materialize document.schemas stack name m = .error e → IsEmbeddingFault e) ∧
      ∀ e, Definitions.ofJson .empty libraryDocument = .error e → IsEmbeddingFault e := by
  have hvalid : Grammar.violations libraryDocument = [] := by decide
  exact ⟨hvalid, by with_unfolding_all rfl, decodes_of_violations_eq_nil .empty hvalid⟩

end DocumentTypes

import DocumentTypes.LoadError
import DocumentTypes.Proofs.Document.Declared
import Mathlib.Data.List.Chain
import Mathlib.Logic.Relation

/-!
Which schemas of a document embed which. The embeddings are well-formed when every embedded name is
one of the schemas and no embeddings between different schemas lead back to where they start
(`Embedding.WellFormed`). An error about embeddings is truthful when it names a part of the document
that breaks this (`Embedding.Refutes`), so there is no truthful error about well-formed embeddings
(`Embedding.Refutes.not_wellFormed`). The embeddings of a written document are those of what is read
from it (`Json.Declares.embedding_eq`).
-/

set_option autoImplicit false

namespace DocumentTypes

/-- `E owner field embedded` says that this field of the schema `owner` embeds the schema
`embedded`, directly or in an array. -/
abbrev Embedding := String → String → String → Prop

namespace Embedding

/-- A field of the first schema embeds the second, which is another one. -/
def Leads (E : Embedding) (owner embedded : String) : Prop :=
  embedded ≠ owner ∧ ∃ field, E owner field embedded

/-- Every embedded name is one of `names`, and the embeddings between different schemas have no
cycle. -/
structure WellFormed (E : Embedding) (names : List String) : Prop where
  known : ∀ owner field embedded, E owner field embedded → embedded ∈ names
  acyclic : ∀ name, ¬ Relation.TransGen E.Leads name name

/-- What an error says against embeddings of the schemas `names`: a field embeds a schema that there
is not, or a path of at least three names goes round, each name's schema embedding the next, with no
name met twice but the one where it closes. -/
inductive Refutes (E : Embedding) (names : List String) : LoadError → Prop
  | unknownSchema {owner field schema : String} (hembeds : E owner field schema)
      (hunknown : schema ∉ names) : Refutes E names (.unknownSchema schema (.field owner field))
  | embeddingCycle {path : List String} (hlength : 3 ≤ path.length)
      (hclosed : path.head? = path.getLast?) (hnodup : path.tail.Nodup)
      (hchain : path.IsChain E.Leads) : Refutes E names (.embeddingCycle path)

variable {E : Embedding} {names : List String}

theorem transGen_of_isChain {name : String} {rest : List String} {last : String}
    (h : (name :: rest).IsChain E.Leads) (hlast : rest.getLast? = some last) :
    Relation.TransGen E.Leads name last := by
  induction rest generalizing name with
  | nil => exact absurd hlast (by simp)
  | cons next rest ih =>
    rw [List.isChain_cons_cons] at h
    obtain ⟨hstep, hrest⟩ := h
    cases rest with
    | nil =>
      obtain rfl := Option.some.inj hlast
      exact .single hstep
    | cons other rest => exact .head hstep (ih hrest (by simpa using hlast))

/-- There is no truthful error about well-formed embeddings. -/
theorem Refutes.not_wellFormed {e : LoadError} (h : E.Refutes names e) :
    ¬ E.WellFormed names := by
  intro hwellFormed
  cases h with
  | unknownSchema hembeds hunknown => exact hunknown (hwellFormed.known _ _ _ hembeds)
  | @embeddingCycle path hlength hclosed hnodup hchain =>
    obtain _ | ⟨name, _ | ⟨next, rest⟩⟩ := path
    · exact absurd hlength (by simp)
    · exact absurd hlength (by simp)
    · have hlast : (next :: rest).getLast? = some name := by simpa using hclosed.symm
      exact hwellFormed.acyclic name (transGen_of_isChain hchain hlast)

end Embedding

/-- The embeddings of declared schemas. -/
def DeclaredSchemas.embedding (schemas : DeclaredSchemas) : Embedding := fun owner field embedded ↦
  ∃ fields declared isArray, schemas.lookup? owner = some fields ∧
    fields.lookup? field = some declared ∧
    declared.descriptor? = some ⟨.embedded embedded, isArray⟩

namespace Json

/-- The embeddings that a document writes. -/
def embedding (value : Json) : Embedding := fun owner field embedded ↦
  ∃ fields written isArray, value.declaredSchemas.lookup? owner = some fields ∧
    fields.lookup? field = some written ∧ written.Describes ⟨.embedded embedded, isArray⟩

variable {value : Json} {schemas : DeclaredSchemas}

theorem Declares.embedding_eq (h : value.Declares schemas) :
    schemas.embedding = value.embedding := by
  funext owner field embedded
  refine propext ⟨?_, ?_⟩
  · rintro ⟨fields, declared, isArray, hfields, hdeclared, hd⟩
    obtain ⟨written, hwritten, hsame⟩ := OrderedMap.Related.exists_left h hfields
    obtain ⟨item, hitem, d, hdescribes, hd'⟩ := OrderedMap.Related.exists_left hsame hdeclared
    obtain rfl := Option.some.inj (hd'.symm.trans hd)
    exact ⟨written, item, isArray, hwritten, hitem, hdescribes⟩
  · rintro ⟨written, item, isArray, hwritten, hitem, hdescribes⟩
    obtain ⟨fields, hfields, hsame⟩ := OrderedMap.Related.exists_right h hwritten
    obtain ⟨declared, hdeclared, d, hdescribes', hd⟩ :=
      OrderedMap.Related.exists_right hsame hitem
    obtain rfl := hdescribes.unique hdescribes'
    exact ⟨fields, declared, isArray, hfields, hdeclared, hd⟩

/-- Every field that is read from a document declares a descriptor. -/
theorem Declares.exists_descriptor (h : value.Declares schemas) {owner field : String}
    {fields : OrderedMap FieldDef} {declared : FieldDef}
    (hfields : schemas.lookup? owner = some fields)
    (hdeclared : fields.lookup? field = some declared) : ∃ d, declared.descriptor? = some d := by
  obtain ⟨written, _, hsame⟩ := OrderedMap.Related.exists_left h hfields
  obtain ⟨_, _, d, -, hd⟩ := OrderedMap.Related.exists_left hsame hdeclared
  exact ⟨d, hd⟩

end Json

end DocumentTypes

import DocumentTypes.Definitions
import DocumentTypes.Proofs.Load.Refusal

/-!
What loading a document gives. A document of the right shape loads exactly when its embeddings are
well-formed, and an error names what breaks them (`loads_iff_wellFormed`). The schemas of a document
that loads are in the heap as the document writes them, one for each name, and every embedded name
is linked to the schema of that name (`loaded_mirrors_document`).
-/

set_option autoImplicit false

namespace DocumentTypes

/-! ### Documents that load -/

section Selected

variable {α : Type} {names : List String} {m : OrderedMap α}

theorem map_fst_filterMap_lookup? (h : ∀ name ∈ names, ∃ value, m.lookup? name = some value) :
    (names.filterMap fun name ↦ (m.lookup? name).map (name, ·)).map Prod.fst = names := by
  induction names with
  | nil => rfl
  | cons name rest ih =>
    obtain ⟨⟨value, hvalue⟩, hrest⟩ := List.forall_mem_cons.mp h
    rw [List.filterMap_cons, hvalue]
    exact congrArg (name :: ·) (ih hrest)

/-- Selecting names that a map holds gives a map with these keys, in their order. -/
theorem keys_ofList_filterMap (hnodup : names.Nodup)
    (h : ∀ name ∈ names, ∃ value, m.lookup? name = some value) :
    (OrderedMap.ofList (names.filterMap fun name ↦ (m.lookup? name).map (name, ·))).keys =
      names := by
  have hnames := map_fst_filterMap_lookup? h
  rw [OrderedMap.keys, OrderedMap.entries_ofList_of_nodup (hnames.symm ▸ hnodup), hnames]

/-- Selecting all names that a map holds keeps what it holds under each. -/
theorem lookup?_ofList_filterMap (hnodup : names.Nodup)
    (h : ∀ name, name ∈ names ↔ ∃ value, m.lookup? name = some value) (name : String) :
    (OrderedMap.ofList (names.filterMap fun name ↦ (m.lookup? name).map (name, ·))).lookup? name =
      m.lookup? name := by
  have hnames := map_fst_filterMap_lookup? fun name hname ↦ (h name).mp hname
  refine Option.ext fun value ↦ ?_
  rw [← OrderedMap.mem_entries_iff, OrderedMap.entries_ofList_of_nodup (hnames.symm ▸ hnodup),
    List.mem_filterMap]
  constructor
  · rintro ⟨other, -, hother⟩
    obtain ⟨value', hvalue', hpair⟩ := Option.map_eq_some_iff.mp hother
    obtain ⟨rfl, rfl⟩ := Prod.mk.inj hpair
    exact hvalue'
  · intro hvalue
    exact ⟨name, (h name).mpr ⟨value, hvalue⟩, by rw [hvalue]; rfl⟩

end Selected

variable {heap heap' : SchemaHeap} {value : Json} {definitions : Definitions} {e : LoadError}

namespace Definitions

theorem ofJson_of_violations_eq_nil {document : Document} (hvalid : Grammar.violations value = [])
    (hread : Document.ofJson? value = some document) :
    ofJson heap value =
      match materializeAll document.schemas document.schemas.keys ⟨heap, ∅⟩ with
      | .error e => .error e
      | .ok m =>
        .ok (⟨.ofList (document.schemas.keys.filterMap fun name ↦
          (m.built.lookup? name).map (name, ·)), document.types⟩, m.heap) := by
  unfold ofJson
  cases hm : materializeAll document.schemas document.schemas.keys ⟨heap, ∅⟩ <;>
    simp only [hvalid, hread, hm]

theorem violations_eq_nil_of_ofJson {loaded : Definitions × SchemaHeap}
    (h : ofJson heap value = .ok loaded) : Grammar.violations value = [] := by
  unfold ofJson at h
  split at h
  · assumption
  · exact absurd h (by simp)

/-- What loads is a document, and its schemas are held in the heap under its names, in its order. -/
theorem ofJson_ok (h : ofJson heap value = .ok (definitions, heap')) :
    ∃ document, Document.ofJson? value = some document ∧ value.Declares document.schemas ∧
      definitions.types = document.types ∧ definitions.schemas.keys = document.schemas.keys ∧
      Materialized.Faithful document.schemas ⟨heap', definitions.schemas⟩ := by
  have hvalid := violations_eq_nil_of_ofJson h
  obtain ⟨document, hread, hdeclares⟩ := exists_document hvalid
  rw [ofJson_of_violations_eq_nil hvalid hread] at h
  split at h
  · exact absurd h (by simp)
  · next m hm =>
    obtain ⟨rfl, rfl⟩ := Prod.mk.inj (Except.ok.inj h)
    obtain ⟨hfaithful, -, hall⟩ := materializeAll_ok (Materialized.faithful_empty _ _) hm
    have hkeys : ∀ name, name ∈ document.schemas.keys ↔ ∃ id, m.built.lookup? name = some id := by
      refine fun name ↦ ⟨hall name, fun ⟨id, hid⟩ ↦ ?_⟩
      obtain ⟨_, _, hfields, -⟩ := hfaithful.mirrored name id hid
      exact OrderedMap.mem_keys_of_lookup? hfields
    have hlookup := lookup?_ofList_filterMap document.schemas.nodup_keys hkeys
    refine ⟨document, hread, hdeclares, rfl,
      keys_ofList_filterMap document.schemas.nodup_keys hall, ?_⟩
    constructor
    · intro name me hme
      obtain ⟨fields, schema, hfields, hlives, hsame⟩ :=
        hfaithful.mirrored name me ((hlookup name).symm.trans hme)
      refine ⟨fields, schema, hfields, hlives, hsame.imp fun _ _ _ _ _ hfield ↦ ?_⟩
      obtain ⟨described, hdescribed, hlinked⟩ := hfield
      exact ⟨described, hdescribed, hlinked.mono fun other id hid ↦ (hlookup other).trans hid⟩
    · intro name name' id hid hid'
      exact hfaithful.distinct name name' id ((hlookup name).symm.trans hid)
        ((hlookup name').symm.trans hid')

end Definitions

/-! ### Well-formed embeddings -/

namespace Materialized.Faithful

variable {schemas : DeclaredSchemas} {m : Materialized}

/-- A field that embeds a schema is linked to it in the heap. -/
theorem exists_link (h : m.Faithful schemas) {owner field embedded : String} {me : SchemaId}
    (hme : m.built.lookup? owner = some me) (hembeds : schemas.embedding owner field embedded) :
    ∃ schema d isArray, m.heap.lookup? me = some schema ∧ schema.lookup? field = some d ∧
      Linked m.built owner me ⟨.embedded embedded, isArray⟩ d := by
  obtain ⟨fields, declared, isArray, hfields, hdeclared, hd⟩ := hembeds
  obtain ⟨fields', schema, hfields', hlives, hsame⟩ := h.mirrored owner me hme
  obtain rfl := Option.some.inj (hfields'.symm.trans hfields)
  obtain ⟨d, hfield, described, hdescribed, hlinked⟩ := hsame.exists_right hdeclared
  obtain rfl := Option.some.inj (hdescribed.symm.trans hd)
  exact ⟨schema, d, isArray, hlives, hfield, hlinked⟩

/-- A schema that embeds another comes after it in the heap. -/
theorem lt_of_leads (h : m.Faithful schemas) {owner embedded : String} {me : SchemaId}
    (hme : m.built.lookup? owner = some me) (hleads : schemas.embedding.Leads owner embedded) :
    ∃ target, m.built.lookup? embedded = some target ∧ target < me := by
  obtain ⟨hother, field, hembeds⟩ := hleads
  obtain ⟨_, _, _, -, -, hlinked⟩ := h.exists_link hme hembeds
  cases hlinked with
  | itself isArray => exact absurd rfl hother
  | other isArray _ htarget hbefore => exact ⟨_, htarget, hbefore⟩

theorem lt_of_transGen (h : m.Faithful schemas) {owner embedded : String} {me : SchemaId}
    (hme : m.built.lookup? owner = some me)
    (hreaches : Relation.TransGen schemas.embedding.Leads owner embedded) :
    ∃ target, m.built.lookup? embedded = some target ∧ target < me := by
  induction hreaches with
  | single hleads => exact h.lt_of_leads hme hleads
  | tail _ hleads ih =>
    obtain ⟨middle, hmiddle, hlt⟩ := ih
    obtain ⟨target, htarget, hlt'⟩ := h.lt_of_leads hmiddle hleads
    exact ⟨target, htarget, Nat.lt_trans hlt' hlt⟩

/-- Embeddings of schemas that all have a place are well-formed. -/
theorem wellFormed (h : m.Faithful schemas) (hall : m.built.keys = schemas.keys) :
    schemas.embedding.WellFormed schemas.keys where
  known owner field embedded hembeds := by
    obtain ⟨fields, -, -, hfields, -⟩ := id hembeds
    by_cases hitself : embedded = owner
    · exact hitself ▸ OrderedMap.mem_keys_of_lookup? hfields
    · obtain ⟨me, hme⟩ := OrderedMap.mem_keys_iff.mp
        (hall.symm ▸ OrderedMap.mem_keys_of_lookup? hfields)
      obtain ⟨target, htarget, -⟩ := h.lt_of_leads hme ⟨hitself, field, hembeds⟩
      exact hall ▸ OrderedMap.mem_keys_of_lookup? htarget
  acyclic name hcycle := by
    obtain ⟨next, ⟨-, field, fields, -, -, hfields, -⟩, -⟩ :=
      Relation.TransGen.head'_iff.mp hcycle
    obtain ⟨me, hme⟩ := OrderedMap.mem_keys_iff.mp
      (hall.symm ▸ OrderedMap.mem_keys_of_lookup? hfields)
    obtain ⟨target, htarget, hlt⟩ := h.lt_of_transGen hme hcycle
    obtain rfl := Option.some.inj (hme.symm.trans htarget)
    exact absurd hlt (Nat.lt_irrefl _)

end Materialized.Faithful

theorem Definitions.ofJson_error (hvalid : Grammar.violations value = [])
    (h : ofJson heap value = .error e) : value.embedding.Refutes value.declaredSchemas.keys e := by
  obtain ⟨document, hread, hdeclares⟩ := exists_document hvalid
  rw [ofJson_of_violations_eq_nil hvalid hread] at h
  have hkeys : value.declaredSchemas.keys = document.schemas.keys :=
    OrderedMap.Related.keys_eq hdeclares
  split at h
  · next e' hfailed =>
    obtain rfl := Except.error.inj h
    rw [← hdeclares.embedding_eq, hkeys]
    exact materializeAll_error (fun _ _ _ _ hfields hdeclared ↦
      hdeclares.exists_descriptor hfields hdeclared) (List.Subset.refl _) hfailed
  · exact absurd h (by simp)

/-- A document of the right shape loads if and only if every embedded name is one of its schemas and
the embeddings between different schemas have no cycle. When it does not load, the error names a
field that embeds an unknown schema, or a path of names that goes round. -/
theorem loads_iff_wellFormed (heap : SchemaHeap) (hvalid : Grammar.violations value = []) :
    ((∃ loaded, Definitions.ofJson heap value = .ok loaded) ↔
        value.embedding.WellFormed value.declaredSchemas.keys) ∧
      ∀ e, Definitions.ofJson heap value = .error e →
        value.embedding.Refutes value.declaredSchemas.keys e := by
  refine ⟨⟨?_, fun hwellFormed ↦ ?_⟩, fun e ↦ Definitions.ofJson_error hvalid⟩
  · rintro ⟨⟨definitions, heap'⟩, hload⟩
    obtain ⟨document, -, hdeclares, -, hkeys, hfaithful⟩ := Definitions.ofJson_ok hload
    rw [← hdeclares.embedding_eq, OrderedMap.Related.keys_eq hdeclares]
    exact hfaithful.wellFormed hkeys
  · cases hload : Definitions.ofJson heap value with
    | ok loaded => exact ⟨loaded, rfl⟩
    | error e => exact absurd hwellFormed (Definitions.ofJson_error hvalid hload).not_wellFormed

/-- A zoo embeds a place and animals; an animal embeds a place too, and its young. The zoo is
written before what it embeds. -/
def zooDocument : Json :=
  .object [("schemas", .object
    [("Zoo", .object [("place", .object [("schema", .string "Place")]),
        ("animals", .array [.object [("schema", .string "Animal")]])]),
      ("Animal", .object [("name", .string "String"),
        ("home", .object [("schema", .string "Place")]),
        ("young", .array [.object [("schema", .string "Animal")]])]),
      ("Place", .object [("city", .string "String")])])]

/-- Animals embed their young, and this makes no cycle. -/
theorem loads_iff_wellFormed_zoo :
    Grammar.violations zooDocument = [] ∧
      (∃ loaded, Definitions.ofJson .empty zooDocument = .ok loaded) ∧
      zooDocument.embedding.WellFormed zooDocument.declaredSchemas.keys := by
  have hvalid : Grammar.violations zooDocument = [] := by decide
  have hload : ∃ loaded, Definitions.ofJson .empty zooDocument = .ok loaded :=
    ⟨_, by with_unfolding_all rfl⟩
  exact ⟨hvalid, hload, (loads_iff_wellFormed .empty hvalid).1.mp hload⟩

/-! ### Schemas as they are written -/

/-- Definitions mirror a document: under the schema names of the document, in its order, they hold
schemas with the written fields, in their order, as what they are written to be. A field that embeds
a schema has a link to a living schema, which is held under the embedded name and under no other.
The link is cyclic when the schema embeds itself, and shared otherwise. -/
structure Definitions.Mirrors (definitions : Definitions) (heap : SchemaHeap) (value : Json) :
    Prop where
  schemas : value.declaredSchemas.Related
    (fun owner written me ↦ ∃ schema, heap.lookup? me = some schema ∧
      written.Related (fun _ field d ↦ ∃ described, field.Describes described ∧
        Linked definitions.schemas owner me described d) schema)
    definitions.schemas
  links : ∀ owner field embedded, value.embedding owner field embedded →
    ∃ me schema d link, definitions.schemas.lookup? owner = some me ∧
      heap.lookup? me = some schema ∧ schema.lookup? field = some d ∧ d.link? = some link ∧
      heap.isAlive link.target = true ∧
      (∀ name, definitions.schemas.lookup? name = some link.target ↔ name = embedded) ∧
      link = if embedded = owner then .cyclic link.target else .shared link.target

theorem loaded_mirrors_document
    (hload : Definitions.ofJson heap value = .ok (definitions, heap')) :
    definitions.Mirrors heap' value := by
  obtain ⟨document, -, hdeclares, -, hkeys, hfaithful⟩ := Definitions.ofJson_ok hload
  constructor
  · have hsameKeys := (OrderedMap.Related.keys_eq hdeclares).trans hkeys.symm
    refine OrderedMap.related_of_lookup? hsameKeys fun owner written me hwritten hme ↦ ?_
    obtain ⟨declared, hdeclared, hfields⟩ := OrderedMap.Related.exists_right hdeclares hwritten
    obtain ⟨fields, schema, hlookup, hlives, hsame⟩ := hfaithful.mirrored owner me hme
    obtain rfl := Option.some.inj (hlookup.symm.trans hdeclared)
    have hwrittenFields := OrderedMap.Related.comp hfields hsame
    refine ⟨schema, hlives, hwrittenFields.imp fun _ field d _ _ hfield ↦ ?_⟩
    obtain ⟨_, ⟨described, hdescribes, hdescribed⟩, described', hdescribed', hlinked⟩ := hfield
    obtain rfl := Option.some.inj (hdescribed.symm.trans hdescribed')
    exact ⟨described, hdescribes, hlinked⟩
  · intro owner field embedded hembeds
    rw [← hdeclares.embedding_eq] at hembeds
    obtain ⟨fields, -, -, hfields, -⟩ := id hembeds
    obtain ⟨me, hme⟩ := OrderedMap.mem_keys_iff.mp
      (hkeys.symm ▸ OrderedMap.mem_keys_of_lookup? hfields)
    obtain ⟨schema, d, isArray, hlives, hfield, hlinked⟩ := hfaithful.exists_link hme hembeds
    have hplace : ∀ {name id}, definitions.schemas.lookup? name = some id →
        heap'.isAlive id = true ∧
          ∀ other, definitions.schemas.lookup? other = some id ↔ other = name := by
      intro name id hid
      obtain ⟨_, hlives⟩ := hfaithful.exists_schema hid
      refine ⟨Option.isSome_iff_exists.mpr ⟨_, hlives⟩, fun other ↦ ⟨fun hother ↦ ?_, ?_⟩⟩
      · exact hfaithful.distinct other name id hother hid
      · rintro rfl
        exact hid
    cases hlinked with
    | itself isArray =>
      obtain ⟨halive, hname⟩ := hplace hme
      exact ⟨me, schema, _, _, hme, hlives, hfield, rfl, halive, hname, by rw [if_pos rfl]; rfl⟩
    | other isArray hother htarget hbefore =>
      obtain ⟨halive, hname⟩ := hplace htarget
      exact ⟨me, schema, _, _, hme, hlives, hfield, rfl, halive, hname, by rw [if_neg hother]; rfl⟩

/-- The zoo comes first in the definitions and last in the heap. -/
theorem loaded_mirrors_document_zoo :
    ∃ definitions heap, Definitions.ofJson .empty zooDocument = .ok (definitions, heap) ∧
      definitions.schemas.entries = [("Zoo", 2), ("Animal", 1), ("Place", 0)] ∧
      definitions.Mirrors heap zooDocument := by
  have hentries : (Definitions.ofJson .empty zooDocument).map (fun loaded ↦
      loaded.1.schemas.entries) = .ok [("Zoo", 2), ("Animal", 1), ("Place", 0)] := by
    with_unfolding_all rfl
  obtain ⟨definitions, heap, hload, hentries⟩ := Definitions.exists_of_map_ofJson hentries
  exact ⟨definitions, heap, hload, hentries, loaded_mirrors_document hload⟩

end DocumentTypes

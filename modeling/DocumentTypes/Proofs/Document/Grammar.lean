import DocumentTypes.Document.Grammar
import DocumentTypes.Proofs.Document.Shape

/-!
The grammar of definitions documents. `Json.IsDocument` says which values are documents, one
definition for each level: documents, declarations of types, fields and elements. A value has no
violations exactly when it is a document (`violations_eq_nil_iff_isDocument`). No value has two of
the forms of a field (`FieldForm.eq_of_accepts`), so that exactly one form is as much as any form.
-/

set_option autoImplicit false

namespace DocumentTypes

namespace Json

def IsText (value : Json) : Prop :=
  ∃ text, value = .string text

def IsArrayOf (item : Json → Prop) (value : Json) : Prop :=
  ∃ items, value = .array items ∧ ∀ i ∈ items, item i

/-- An object that has the required members, and no members but those that `member` allows. -/
def IsObjectOf (required : List String) (member : String → Json → Prop) (value : Json) : Prop :=
  ∃ members, value = .object members ∧ (∀ name ∈ required, name ∈ members.map Prod.fst) ∧
    ∀ m ∈ members, member m.1 m.2

/-- An object with members of any names. -/
abbrev IsMapOf (item : Json → Prop) : Json → Prop :=
  IsObjectOf [] fun _ ↦ item

/-- An object with the single member `name`, which is a text. -/
def HasOnlyText (name : String) : Json → Prop :=
  IsObjectOf [name] fun other value ↦ other = name ∧ value.IsText

/-- An element: the tag of a kind, an embedded schema, or a reference to a type. -/
inductive IsElement : Json → Prop
  | kind {tag : String} (htag : tag ≠ "") : IsElement (.string tag)
  | embedded {value : Json} (hschema : value.HasOnlyText "schema") : IsElement value
  | reference {value : Json} (href : value.HasOnlyText "ref") : IsElement value

theorem not_isElement_array {items : List Json} : ¬ (array items).IsElement := by
  rintro (_ | ⟨_, hobject, -⟩ | ⟨_, hobject, -⟩) <;> cases hobject

/-- The descriptor of a field: an element, or an array of exactly one element. -/
inductive IsField : Json → Prop
  | element {value : Json} (helement : IsElement value) : IsField value
  | array {item : Json} (hitem : IsElement item) : IsField (.array [item])

/-- The members that the declaration of a type can have. -/
inductive IsDeclarationMember : String → Json → Prop
  | name {value : Json} (h : value.IsText) : IsDeclarationMember "name" value
  | schema {value : Json} (h : value.IsText) : IsDeclarationMember "schema" value
  | className {value : Json} (h : value.IsText) : IsDeclarationMember "class" value
  | description {value : Json} (h : value.IsText) : IsDeclarationMember "description" value
  | exclude {value : Json} (h : value.IsArrayOf IsText) : IsDeclarationMember "exclude" value
  | extend {value : Json} (h : value.IsMapOf IsText) : IsDeclarationMember "extend" value
  | props {value : Json} (h : value.IsMapOf IsText) : IsDeclarationMember "props" value

def IsDeclaration : Json → Prop :=
  IsObjectOf ["name", "schema", "class"] IsDeclarationMember

/-- The members that a document can have. -/
inductive IsDocumentMember : String → Json → Prop
  | schemas {value : Json} (h : value.IsMapOf (IsMapOf IsField)) : IsDocumentMember "schemas" value
  | types {value : Json} (h : value.IsArrayOf IsDeclaration) : IsDocumentMember "types" value

def IsDocument : Json → Prop :=
  IsObjectOf ["schemas"] IsDocumentMember

end Json

namespace Grammar

variable {value : Json}

/-! ### Values of a shape -/

theorem accepts_anyText_iff : anyText.accepts value = true ↔ value.IsText := by
  simp [anyText, Shape.accepts_text_iff, Json.IsText]

theorem accepts_list_iff_isArrayOf {items : Shape} {item : Json → Prop}
    (h : ∀ value, items.accepts value = true ↔ item value) :
    (Shape.list items false).accepts value = true ↔ value.IsArrayOf item := by
  simp [Shape.accepts_list_iff, Json.IsArrayOf, h]

theorem accepts_dictionary_iff_isMapOf {values : Shape} {item : Json → Prop}
    (h : ∀ value, values.accepts value = true ↔ item value) :
    (Shape.dictionary values).accepts value = true ↔ value.IsMapOf item := by
  simp [Shape.accepts_dictionary_iff, Json.IsMapOf, Json.IsObjectOf, h]

theorem accepts_record_iff_isObjectOf {members : List (String × Shape)} {required : List String}
    {member : String → Json → Prop} (hnodup : (members.map Prod.fst).Nodup)
    (h : ∀ name value, (∃ shape, (name, shape) ∈ members ∧ shape.accepts value = true) ↔
      member name value) :
    (Shape.record members required).accepts value = true ↔ value.IsObjectOf required member := by
  simp only [Shape.accepts_record_iff, Json.IsObjectOf, Shape.acceptsMember_iff hnodup, h]

theorem accepts_named_iff {name : String} {shape : Shape} :
    (Shape.named name shape).accepts value = true ↔ shape.accepts value = true := by
  rw [Shape.accepts]

/-! ### Fields -/

/-- The forms that the descriptor of a field can have. -/
inductive FieldForm where
  | kind
  | embedded
  | reference
  | array
deriving DecidableEq

def FieldForm.shape : FieldForm → Shape
  | kind => .text true
  | embedded => .record [("schema", anyText)] ["schema"]
  | reference => .record [("ref", anyText)] ["ref"]
  | array => .list (.named "element" element) true

theorem accepts_singleText_iff {name : String} :
    (Shape.record [(name, anyText)] [name]).accepts value = true ↔ value.HasOnlyText name := by
  refine accepts_record_iff_isObjectOf (by simp) fun other member ↦ ?_
  simp [accepts_anyText_iff]

/-- The only form that a value of its type, with its members, can have. -/
def formOf? : Json → Option FieldForm
  | .string _ => some .kind
  | .object members =>
    if "schema" ∈ members.map Prod.fst then some .embedded else some .reference
  | .array _ => some .array
  | _ => none

theorem formOf?_of_accepts {form : FieldForm} (h : form.shape.accepts value = true) :
    formOf? value = some form := by
  cases form with
  | kind =>
    obtain ⟨tag, rfl⟩ := Shape.accepts_text h
    rfl
  | embedded =>
    obtain ⟨members, rfl, hrequired, -⟩ := accepts_singleText_iff.mp h
    rw [formOf?, if_pos (hrequired "schema" List.mem_cons_self)]
  | reference =>
    obtain ⟨members, rfl, -, hmembers⟩ := accepts_singleText_iff.mp h
    have hschema : "schema" ∉ members.map Prod.fst := by
      intro hmem
      obtain ⟨m, hm, hkey⟩ := List.mem_map.mp hmem
      exact absurd (hkey.symm.trans (hmembers m hm).1) (by decide)
    rw [formOf?, if_neg hschema]
  | array =>
    obtain ⟨items, rfl, -⟩ := Shape.accepts_list_iff.mp h
    rfl

/-- The forms exclude each other. -/
theorem FieldForm.eq_of_accepts {form other : FieldForm} (h : form.shape.accepts value = true)
    (hother : other.shape.accepts value = true) : form = other :=
  Option.some.inj ((formOf?_of_accepts h).symm.trans (formOf?_of_accepts hother))

/-- The value has this form and no other. -/
def FieldForm.IsOnlyFormOf (form : FieldForm) (value : Json) : Prop :=
  ∀ other : FieldForm, other.shape.accepts value = true ↔ other = form

theorem FieldForm.isOnlyFormOf_of_accepts {form : FieldForm}
    (h : form.shape.accepts value = true) : form.IsOnlyFormOf value :=
  fun _ ↦ ⟨fun hother ↦ eq_of_accepts hother h, fun hsame ↦ hsame ▸ h⟩

theorem accepts_element_iff_exists_form :
    element.accepts value = true ↔ ∃ form ≠ FieldForm.array, form.shape.accepts value = true := by
  have hnodup : [FieldForm.kind, .embedded, .reference].Nodup := by decide
  have hexclusive : ([FieldForm.kind, .embedded, .reference].map FieldForm.shape).Pairwise
      fun shape other ↦ shape.accepts value = true → ¬ other.accepts value = true :=
    List.pairwise_map.mpr (hnodup.imp fun hne h hother ↦ hne (FieldForm.eq_of_accepts h hother))
  refine (Shape.accepts_oneOf_iff hexclusive).trans ⟨?_, ?_⟩
  · rintro ⟨_, hshape, haccepts⟩
    obtain ⟨form, hform, rfl⟩ := List.mem_map.mp hshape
    exact ⟨form, fun harray ↦ absurd (harray ▸ hform) (by decide), haccepts⟩
  · rintro ⟨form, hform, haccepts⟩
    exact ⟨form.shape, List.mem_map_of_mem (by cases form <;> simp_all), haccepts⟩

/-- The descriptor of a field has one of the forms. -/
theorem accepts_field_iff_exists_form :
    field.accepts value = true ↔ ∃ form : FieldForm, form.shape.accepts value = true := by
  have hexclusive : [.named "element" element, FieldForm.array.shape].Pairwise fun shape other ↦
      shape.accepts value = true → ¬ other.accepts value = true := by
    refine List.pairwise_pair.mpr fun helement harray ↦ ?_
    rw [accepts_named_iff, accepts_element_iff_exists_form] at helement
    obtain ⟨form, hform, haccepts⟩ := helement
    exact hform (FieldForm.eq_of_accepts haccepts harray)
  refine (Shape.accepts_oneOf_iff hexclusive).trans ⟨?_, ?_⟩
  · rintro ⟨shape, hshape, haccepts⟩
    rcases List.mem_pair.mp hshape with rfl | rfl
    · obtain ⟨form, -, hform⟩ := accepts_element_iff_exists_form.mp (accepts_named_iff.mp haccepts)
      exact ⟨form, hform⟩
    · exact ⟨.array, haccepts⟩
  · rintro ⟨form, hform⟩
    by_cases harray : form = .array
    · exact ⟨form.shape, by simp [harray], hform⟩
    · exact ⟨_, List.mem_cons_self,
        accepts_named_iff.mpr (accepts_element_iff_exists_form.mpr ⟨form, harray, hform⟩)⟩

theorem accepts_element_iff : element.accepts value = true ↔ value.IsElement := by
  rw [accepts_element_iff_exists_form]
  constructor
  · rintro ⟨form, hform, haccepts⟩
    cases form with
    | kind =>
      obtain ⟨tag, rfl, htag⟩ := Shape.accepts_text_iff.mp haccepts
      exact .kind (htag rfl)
    | embedded => exact .embedded (accepts_singleText_iff.mp haccepts)
    | reference => exact .reference (accepts_singleText_iff.mp haccepts)
    | array => exact absurd rfl hform
  · intro h
    cases h with
    | kind htag =>
      exact ⟨.kind, by decide, Shape.accepts_text_iff.mpr ⟨_, rfl, fun _ ↦ htag⟩⟩
    | embedded hschema => exact ⟨.embedded, by decide, accepts_singleText_iff.mpr hschema⟩
    | reference href => exact ⟨.reference, by decide, accepts_singleText_iff.mpr href⟩

theorem accepts_singleElement_iff :
    FieldForm.array.shape.accepts value = true ↔
      ∃ item, value = .array [item] ∧ item.IsElement := by
  rw [FieldForm.shape, Shape.accepts_list_iff]
  simp only [accepts_named_iff, accepts_element_iff, forall_const]
  constructor
  · rintro ⟨items, rfl, hitems, hsingle⟩
    obtain ⟨item, rfl⟩ := List.length_eq_one_iff.mp hsingle
    exact ⟨item, rfl, hitems item List.mem_cons_self⟩
  · rintro ⟨item, rfl, hitem⟩
    exact ⟨[item], rfl, by simpa using hitem, rfl⟩

theorem accepts_field_iff : field.accepts value = true ↔ value.IsField := by
  rw [accepts_field_iff_exists_form]
  constructor
  · rintro ⟨form, haccepts⟩
    by_cases harray : form = .array
    · obtain ⟨item, rfl, hitem⟩ := accepts_singleElement_iff.mp (harray ▸ haccepts)
      exact .array hitem
    · exact .element (accepts_element_iff.mp
        (accepts_element_iff_exists_form.mpr ⟨form, harray, haccepts⟩))
  · intro h
    cases h with
    | element helement =>
      obtain ⟨form, -, haccepts⟩ :=
        accepts_element_iff_exists_form.mp (accepts_element_iff.mpr helement)
      exact ⟨form, haccepts⟩
    | array hitem => exact ⟨.array, accepts_singleElement_iff.mpr ⟨_, rfl, hitem⟩⟩

/-! ### Documents -/

theorem accepts_typeMap_iff : typeMap.accepts value = true ↔ value.IsMapOf Json.IsText :=
  accepts_dictionary_iff_isMapOf fun _ ↦ accepts_anyText_iff

theorem accepts_declaration_iff : declaration.accepts value = true ↔ value.IsDeclaration := by
  refine accepts_record_iff_isObjectOf (by decide) fun name member ↦ ?_
  have hexclude := @accepts_list_iff_isArrayOf member anyText _ fun _ ↦ accepts_anyText_iff
  constructor
  · rintro ⟨shape, hshape, haccepts⟩
    simp only [List.mem_cons, Prod.mk.injEq, List.not_mem_nil, or_false] at hshape
    rcases hshape with ⟨rfl, rfl⟩ | ⟨rfl, rfl⟩ | ⟨rfl, rfl⟩ | ⟨rfl, rfl⟩ | ⟨rfl, rfl⟩ | ⟨rfl, rfl⟩ |
      ⟨rfl, rfl⟩
    · exact .name (accepts_anyText_iff.mp haccepts)
    · exact .schema (accepts_anyText_iff.mp haccepts)
    · exact .className (accepts_anyText_iff.mp haccepts)
    · exact .description (accepts_anyText_iff.mp haccepts)
    · exact .exclude (hexclude.mp haccepts)
    · exact .extend (accepts_typeMap_iff.mp (accepts_named_iff.mp haccepts))
    · exact .props (accepts_typeMap_iff.mp (accepts_named_iff.mp haccepts))
  · intro h
    cases h with
    | exclude h => exact ⟨_, by simp, hexclude.mpr h⟩
    | extend h =>
      exact ⟨.named "typeMap" typeMap, by simp,
        accepts_named_iff.mpr (accepts_typeMap_iff.mpr h)⟩
    | props h =>
      exact ⟨.named "typeMap" typeMap, by simp,
        accepts_named_iff.mpr (accepts_typeMap_iff.mpr h)⟩
    | _ h => exact ⟨_, by simp, accepts_anyText_iff.mpr h⟩

theorem accepts_schemas_iff :
    (Shape.dictionary (.dictionary (.named "field" field))).accepts value = true ↔
      value.IsMapOf (Json.IsMapOf Json.IsField) :=
  accepts_dictionary_iff_isMapOf fun _ ↦ accepts_dictionary_iff_isMapOf fun _ ↦
    accepts_named_iff.trans accepts_field_iff

theorem accepts_document_iff : document.accepts value = true ↔ value.IsDocument := by
  refine accepts_record_iff_isObjectOf (by decide) fun name member ↦ ?_
  have htypes := @accepts_list_iff_isArrayOf member (.named "declaration" declaration) _ fun _ ↦
    accepts_named_iff.trans accepts_declaration_iff
  constructor
  · rintro ⟨shape, hshape, haccepts⟩
    simp only [List.mem_cons, Prod.mk.injEq, List.not_mem_nil, or_false] at hshape
    rcases hshape with ⟨rfl, rfl⟩ | ⟨rfl, rfl⟩
    · exact .schemas (accepts_schemas_iff.mp haccepts)
    · exact .types (htypes.mp haccepts)
  · intro h
    cases h with
    | schemas h => exact ⟨_, by simp, accepts_schemas_iff.mpr h⟩
    | types h => exact ⟨_, by simp, htypes.mpr h⟩

/-- A value has no violations exactly when it is a document: an object with schemas and possibly
declarations of types, where every field of a schema is an element or an array of one element. -/
theorem violations_eq_nil_iff_isDocument : violations value = [] ↔ value.IsDocument :=
  (Shape.violations_eq_nil_iff document [] value).trans accepts_document_iff

end Grammar

end DocumentTypes

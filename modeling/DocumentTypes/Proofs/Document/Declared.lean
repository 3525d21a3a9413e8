import DocumentTypes.Document
import DocumentTypes.Proofs.Document.Grammar
import DocumentTypes.Proofs.OrderedMap.Related

/-!
What a definitions document declares, as it is written. `Json.declaredSchemas` holds the written
fields of each schema, and `Json.Describes` says which descriptor a written field stands for. A
document without violations can be read, with each field read as the form that it has
(`exists_document_readAs`), and what is read from it are the declared schemas with their described
fields (`Json.Declares`).
-/

set_option autoImplicit false

namespace DocumentTypes

namespace Json

/-- The members of an object; none of any other value. -/
def members (value : Json) : List (String × Json) :=
  value.object?.getD []

/-- The written fields of each schema of a document. -/
def declaredSchemas (value : Json) : OrderedMap (OrderedMap Json) :=
  .ofList (((value.members.lookup "schemas").getD .null).members.map fun schema ↦
    (schema.1, .ofList schema.2.members))

/-- The descriptor that a written field stands for: a text is the tag of a kind, an object names a
schema or a type, and an array has one element. -/
inductive Describes : Json → PathDescriptor String → Prop
  | kind (tag : String) : Describes (.string tag) ⟨.primitive (.ofTag tag), false⟩
  | embedded {members : List (String × Json)} {schema : String}
      (hschema : members.lookup "schema" = some (.string schema)) :
      Describes (.object members) ⟨.embedded schema, false⟩
  | reference {members : List (String × Json)} {typeName : String}
      (hschema : members.lookup "schema" = none)
      (href : members.lookup "ref" = some (.string typeName)) :
      Describes (.object members) ⟨.reference typeName, false⟩
  | array {item : Json} {element : Element String} (hitem : Describes item ⟨element, false⟩) :
      Describes (.array [item]) ⟨element, true⟩

/-- A written field stands for one descriptor. -/
theorem Describes.unique {value : Json} {d d' : PathDescriptor String} (h : value.Describes d)
    (h' : value.Describes d') : d = d' := by
  induction h generalizing d' with
  | kind tag =>
    cases h'
    rfl
  | embedded hschema =>
    cases h' with
    | embedded hschema' => rw [string.inj (Option.some.inj (hschema.symm.trans hschema'))]
    | reference hnone href => exact absurd (hschema.symm.trans hnone) (by simp)
  | reference hnone href =>
    cases h' with
    | embedded hschema => exact absurd (hschema.symm.trans hnone) (by simp)
    | reference hnone' href' => rw [string.inj (Option.some.inj (href.symm.trans href'))]
  | array hitem ih =>
    cases h' with
    | array hitem' =>
      obtain ⟨rfl, -⟩ := PathDescriptor.mk.inj (ih hitem')
      rfl

/-- The fields of a schema are those that are written, in the same order, with the descriptors that
these stand for. -/
def DeclaresFields (written : OrderedMap Json) (declared : OrderedMap FieldDef) : Prop :=
  written.Related (fun _ field fieldDef ↦
    ∃ d, field.Describes d ∧ FieldDef.descriptor? fieldDef = some d) declared

/-- The schemas are those that the document writes, in the same order, with the written fields. -/
def Declares (value : Json) (schemas : DeclaredSchemas) : Prop :=
  value.declaredSchemas.Related (fun _ ↦ DeclaresFields) schemas

end Json

/-! ### Fields -/

/-- What a written field is read as: the content of the one form that it has. -/
inductive Json.ReadAs : Json → FieldDef → Prop
  | kind {tag : String} (hform : Grammar.FieldForm.kind.IsOnlyFormOf (.string tag)) :
      ReadAs (.string tag) (.kind tag)
  | embedded {members : List (String × Json)} {schema : String}
      (hform : Grammar.FieldForm.embedded.IsOnlyFormOf (.object members))
      (hschema : members.lookup "schema" = some (.string schema)) :
      ReadAs (.object members) (.embedded schema)
  | reference {members : List (String × Json)} {typeName : String}
      (hform : Grammar.FieldForm.reference.IsOnlyFormOf (.object members))
      (href : members.lookup "ref" = some (.string typeName)) :
      ReadAs (.object members) (.reference typeName)
  | array {item : Json} {element : FieldDef}
      (hform : Grammar.FieldForm.array.IsOnlyFormOf (.array [item]))
      (hitem : ReadAs item element) : ReadAs (.array [item]) (.array [element])

theorem Json.HasOnlyText.exists_lookup {name : String} {value : Json}
    (h : value.HasOnlyText name) : ∃ members text, value = .object members ∧
      members.lookup name = some (.string text) ∧ ∀ other ≠ name, members.lookup other = none := by
  obtain ⟨members, rfl, hrequired, hmembers⟩ := h
  obtain ⟨member, hmember⟩ : ∃ member, members.lookup name = some member := by
    rw [← Option.isSome_iff_exists, List.lookup_isSome_iff]
    obtain ⟨m, hm, hkey⟩ := List.mem_map.mp (hrequired name List.mem_cons_self)
    exact ⟨m, hm, by simp [hkey]⟩
  obtain ⟨before, after, hsplit, -⟩ := List.lookup_eq_some_iff.mp hmember
  obtain ⟨-, text, htext⟩ := hmembers (name, member) (by simp [hsplit])
  obtain rfl : member = .string text := htext
  refine ⟨members, text, rfl, hmember, fun other hother ↦ List.lookup_eq_none_iff.mpr ?_⟩
  intro m hm
  simpa [(hmembers m hm).1] using hother

/-- An element is read as the content of its form, and not as an array. -/
theorem exists_element {value : Json} (h : Grammar.element.accepts value = true) :
    ∃ field, FieldDef.ofJson? value = some field ∧ value.ReadAs field := by
  obtain ⟨form, hform, haccepts⟩ := Grammar.accepts_element_iff_exists_form.mp h
  have honly := Grammar.FieldForm.isOnlyFormOf_of_accepts haccepts
  cases form with
  | kind =>
    obtain ⟨tag, rfl⟩ := Shape.accepts_text haccepts
    exact ⟨.kind tag, rfl, .kind honly⟩
  | embedded =>
    obtain ⟨members, schema, rfl, hschema, -⟩ :=
      (Grammar.accepts_singleText_iff.mp haccepts).exists_lookup
    refine ⟨.embedded schema, ?_, .embedded honly hschema⟩
    simp [FieldDef.ofJson?, hschema, Json.string?]
  | reference =>
    obtain ⟨members, typeName, rfl, href, hothers⟩ :=
      (Grammar.accepts_singleText_iff.mp haccepts).exists_lookup
    refine ⟨.reference typeName, ?_, .reference honly href⟩
    simp [FieldDef.ofJson?, href, hothers "schema" (by decide), Json.string?]
  | array => exact absurd rfl hform

/-- A field of the right shape is read as the content of its form. -/
theorem exists_field {value : Json} (h : Grammar.field.accepts value = true) :
    ∃ field, FieldDef.ofJson? value = some field ∧ value.ReadAs field := by
  obtain ⟨form, haccepts⟩ := Grammar.accepts_field_iff_exists_form.mp h
  by_cases harray : form = .array
  · subst harray
    obtain ⟨item, rfl, hitem⟩ := Grammar.accepts_singleElement_iff.mp haccepts
    obtain ⟨field, hfield, hreadAs⟩ := exists_element (Grammar.accepts_element_iff.mpr hitem)
    refine ⟨.array [field], ?_,
      .array (Grammar.FieldForm.isOnlyFormOf_of_accepts haccepts) hreadAs⟩
    simp [FieldDef.ofJson?, FieldDef.listOfJson?, hfield]
  · exact exists_element (Grammar.accepts_element_iff_exists_form.mpr ⟨form, harray, haccepts⟩)

theorem Json.ReadAs.exists_element {value : Json} {field : FieldDef} (h : value.ReadAs field)
    (hvalue : value.IsElement) :
    ∃ element, field.element? = some element ∧ value.Describes ⟨element, false⟩ := by
  cases h with
  | kind hform => exact ⟨_, rfl, .kind _⟩
  | embedded hform hschema => exact ⟨_, rfl, .embedded hschema⟩
  | @reference members typeName hform href =>
    obtain ⟨_, _, hobject, -, hothers⟩ :=
      (Grammar.accepts_singleText_iff.mp ((hform _).mpr rfl)).exists_lookup
    obtain rfl := Json.object.inj hobject
    exact ⟨_, rfl, .reference (hothers "schema" (by decide)) href⟩
  | array hform hitem => exact absurd hvalue Json.not_isElement_array

theorem FieldDef.descriptor?_of_element? {field : FieldDef} {element : Element String}
    (h : field.element? = some element) : field.descriptor? = some ⟨element, false⟩ := by
  cases field with
  | array elements => exact absurd h (by simp [element?])
  | _ => simp [descriptor?, h]

theorem Json.ReadAs.isField {value : Json} {field : FieldDef} (h : value.ReadAs field) :
    value.IsField := by
  rw [← Grammar.accepts_field_iff, Grammar.accepts_field_iff_exists_form]
  cases h with
  | kind hform | embedded hform | reference hform | array hform =>
    exact ⟨_, (hform _).mpr rfl⟩

/-- What a field is read as declares the descriptor that the field stands for. -/
theorem Json.ReadAs.exists_descriptor {value : Json} {field : FieldDef} (h : value.ReadAs field) :
    ∃ d, value.Describes d ∧ field.descriptor? = some d := by
  cases h.isField with
  | element helement =>
    obtain ⟨element, hfield, hdescribes⟩ := h.exists_element helement
    exact ⟨_, hdescribes, FieldDef.descriptor?_of_element? hfield⟩
  | array hitem =>
    cases h with
    | array _ hreadAs =>
      obtain ⟨element, hfield, hdescribes⟩ := hreadAs.exists_element hitem
      exact ⟨_, .array hdescribes, by rw [FieldDef.descriptor?, hfield]; rfl⟩

/-! ### Documents -/

theorem exists_mapM_forall₂ {α β : Type} {f : α → Option β} {S : α → β → Prop} {items : List α}
    (h : ∀ item ∈ items, ∃ b, f item = some b ∧ S item b) :
    ∃ values, items.mapM f = some values ∧ List.Forall₂ S items values := by
  induction items with
  | nil => exact ⟨[], rfl, .nil⟩
  | cons item rest ih =>
    obtain ⟨hitem, hrest⟩ := List.forall_mem_cons.mp h
    obtain ⟨b, hb, hrelated⟩ := hitem
    obtain ⟨values, hvalues, hothers⟩ := ih hrest
    exact ⟨b :: values, by simp [List.mapM_cons, hb, hvalues], .cons hrelated hothers⟩

/-- Items that can be read one by one are read as a list. -/
theorem exists_mapM_eq_some {α β : Type} {f : α → Option β} {items : List α}
    (h : ∀ item ∈ items, ∃ b, f item = some b) : ∃ values, items.mapM f = some values := by
  have hitems : ∀ item ∈ items, ∃ b, f item = some b ∧ True := by
    simpa only [and_true] using h
  obtain ⟨values, hvalues, -⟩ := exists_mapM_forall₂ hitems
  exact ⟨values, hvalues⟩

/-- Members that can be read one by one are read as a map, with what is read at the places of what
is written. -/
theorem exists_ofMembers? {α β : Type} (read? : Json → Option α) (written : Json → β)
    {R : String → β → α → Prop} {members : List (String × Json)}
    (h : ∀ member ∈ members, ∃ a, read? member.2 = some a ∧ R member.1 (written member.2) a) :
    ∃ m, OrderedMap.ofMembers? read? members = some m ∧
      (OrderedMap.ofList (members.map fun member ↦ (member.1, written member.2))).Related R m := by
  have hmembers : ∀ member ∈ members, ∃ entry,
      (read? member.2).map (member.1, ·) = some entry ∧
        member.1 = entry.1 ∧ R member.1 (written member.2) entry.2 := by
    intro member hmember
    obtain ⟨a, ha, hrelated⟩ := h member hmember
    exact ⟨(member.1, a), by rw [ha]; rfl, rfl, hrelated⟩
  obtain ⟨entries, hentries, hrelated⟩ := exists_mapM_forall₂ hmembers
  refine ⟨.ofList entries, ?_, OrderedMap.related_ofList (List.forall₂_map_left_iff.mpr hrelated)⟩
  rw [OrderedMap.ofMembers?, hentries]
  rfl

/-- The written fields of a schema can be read, each as the content of its form. -/
theorem exists_fields {value : Json}
    (h : (Shape.dictionary (.named "field" Grammar.field)).accepts value = true) :
    ∃ declared, value.object?.bind (OrderedMap.ofMembers? FieldDef.ofJson?) = some declared ∧
      (OrderedMap.ofList value.members).Related (fun _ ↦ Json.ReadAs) declared := by
  obtain ⟨members, rfl, hfields⟩ := Shape.accepts_dictionary_iff.mp h
  obtain ⟨declared, hread, hsame⟩ := exists_ofMembers? FieldDef.ofJson? id
    (R := fun _ ↦ Json.ReadAs) fun member hmember ↦
      exists_field (Grammar.accepts_named_iff.mp (hfields member hmember))
  refine ⟨declared, hread, ?_⟩
  simpa [Json.members, Json.object?] using hsame

theorem exists_texts {value : Json} (h : Grammar.typeMap.accepts value = true) :
    ∃ texts, value.texts? = some texts := by
  obtain ⟨members, rfl, htexts⟩ := Shape.accepts_dictionary_iff.mp h
  have hmembers : ∀ member ∈ members, ∃ text, member.2.string? = some text ∧ True := by
    intro member hmember
    obtain ⟨text, htext⟩ := Shape.accepts_text (htexts member hmember)
    exact ⟨text, by rw [htext]; rfl, trivial⟩
  obtain ⟨texts, hread, -⟩ := exists_ofMembers? Json.string? id (R := fun _ _ _ ↦ True) hmembers
  exact ⟨texts, hread⟩

/-- A member that may be absent can be read when every value that it may have can be. -/
theorem exists_memberOr? {α : Type} {members : List (String × Json)} {name : String} {absent : α}
    {read? : Json → Option α}
    (h : ∀ value, members.lookup name = some value → ∃ a, read? value = some a) :
    ∃ a, Json.memberOr? members name absent read? = some a := by
  unfold Json.memberOr?
  cases hlookup : members.lookup name with
  | none => exact ⟨absent, rfl⟩
  | some value => exact h value hlookup

theorem exists_declaration {value : Json} (h : Grammar.declaration.accepts value = true) :
    ∃ declaration, TypeDeclaration.ofJson? value = some declaration := by
  obtain ⟨members, rfl, hrequired, hknown⟩ := Shape.accepts_record h
  have htext : ∀ name ∈ ["name", "schema", "class"], ∃ text,
      (members.lookup name).bind Json.string? = some text := by
    intro name hname
    obtain ⟨member, hmember⟩ := hrequired name hname
    obtain ⟨shape, hshape, haccepts⟩ := hknown name member hmember
    have hanyText : shape = Grammar.anyText := by
      simp only [List.mem_cons, List.not_mem_nil, or_false] at hname
      rcases hname with rfl | rfl | rfl <;> exact (Option.some.inj hshape).symm
    rw [hanyText] at haccepts
    obtain ⟨text, rfl⟩ := Shape.accepts_text haccepts
    exact ⟨text, by rw [hmember]; rfl⟩
  obtain ⟨name, hname⟩ := htext "name" (by simp)
  obtain ⟨schema, hschema⟩ := htext "schema" (by simp)
  obtain ⟨className, hclass⟩ := htext "class" (by simp)
  obtain ⟨exclude, hexclude⟩ : ∃ exclude, Json.memberOr? members "exclude" []
      (fun value ↦ value.array?.bind (List.mapM Json.string?)) = some exclude := by
    refine exists_memberOr? fun member hmember ↦ ?_
    obtain ⟨shape, hshape, haccepts⟩ := hknown _ member hmember
    obtain rfl := Option.some.inj hshape
    obtain ⟨items, rfl, hitems, -⟩ := Shape.accepts_list_iff.mp haccepts
    have hnames : ∀ item ∈ items, ∃ text, item.string? = some text := by
      intro item hitem
      obtain ⟨text, rfl⟩ := Shape.accepts_text (hitems item hitem)
      exact ⟨text, rfl⟩
    exact exists_mapM_eq_some hnames
  have htexts : ∀ name ∈ ["extend", "props"], ∃ texts,
      Json.memberOr? members name ∅ Json.texts? = some texts := by
    intro name hname
    refine exists_memberOr? fun member hmember ↦ ?_
    obtain ⟨shape, hshape, haccepts⟩ := hknown name member hmember
    have htypeMap : shape = .named "typeMap" Grammar.typeMap := by
      simp only [List.mem_cons, List.not_mem_nil, or_false] at hname
      rcases hname with rfl | rfl <;> exact (Option.some.inj hshape).symm
    rw [htypeMap, Shape.accepts] at haccepts
    exact exists_texts haccepts
  obtain ⟨extend, hextend⟩ := htexts "extend" (by simp)
  obtain ⟨props, hprops⟩ := htexts "props" (by simp)
  simp only [TypeDeclaration.ofJson?, Json.object?, Option.bind_eq_bind, Option.bind_some, hname,
    hschema, hclass, hexclude, hextend, hprops]
  refine (exists_memberOr? fun member hmember ↦ ?_).elim fun description hdescription ↦
    ⟨⟨name, schema, className, description, exclude, extend, props⟩,
      Option.bind_eq_some_iff.mpr ⟨description, hdescription, rfl⟩⟩
  obtain ⟨shape, hshape, haccepts⟩ := hknown _ member hmember
  obtain rfl := Option.some.inj hshape
  obtain ⟨text, rfl⟩ := Shape.accepts_text haccepts
  exact ⟨some text, rfl⟩

/-- A document without violations can be read, with the written schemas and with each of their
fields read as the content of its form. -/
theorem exists_document_readAs {value : Json} (h : Grammar.violations value = []) :
    ∃ document, Document.ofJson? value = some document ∧
      value.declaredSchemas.Related (fun _ written declared ↦
        written.Related (fun _ ↦ Json.ReadAs) declared) document.schemas := by
  have haccepts := (Shape.violations_eq_nil_iff _ _ _).mp h
  obtain ⟨members, rfl, hrequired, hknown⟩ := Shape.accepts_record haccepts
  obtain ⟨written, hwritten⟩ := hrequired "schemas" List.mem_cons_self
  obtain ⟨shape, hshape, hschemas⟩ := hknown "schemas" written hwritten
  obtain rfl := Option.some.inj hshape
  obtain ⟨entries, rfl, hfields⟩ := Shape.accepts_dictionary_iff.mp hschemas
  obtain ⟨schemas, hread, hsame⟩ := exists_ofMembers?
    (fun fields ↦ fields.object?.bind (OrderedMap.ofMembers? FieldDef.ofJson?))
    (fun fields ↦ OrderedMap.ofList fields.members)
    (R := fun _ written declared ↦ written.Related (fun _ ↦ Json.ReadAs) declared)
    fun entry hentry ↦ exists_fields (hfields entry hentry)
  obtain ⟨types, htypes⟩ : ∃ types, Json.memberOr? members "types" []
      (fun value ↦ value.array?.bind (List.mapM TypeDeclaration.ofJson?)) = some types := by
    refine exists_memberOr? fun member hmember ↦ ?_
    obtain ⟨shape, hshape, haccepts⟩ := hknown _ member hmember
    obtain rfl := Option.some.inj hshape
    obtain ⟨items, rfl, hitems, -⟩ := Shape.accepts_list_iff.mp haccepts
    have hdeclarations : ∀ item ∈ items, ∃ declaration,
        TypeDeclaration.ofJson? item = some declaration := by
      intro item hitem
      have hitem := hitems item hitem
      rw [Shape.accepts] at hitem
      exact exists_declaration hitem
    exact exists_mapM_eq_some hdeclarations
  refine ⟨⟨schemas, types⟩, ?_, ?_⟩
  · unfold Document.ofJson?
    refine Option.bind_eq_some_iff.mpr ⟨members, rfl, ?_⟩
    refine Option.bind_eq_some_iff.mpr ⟨.object entries, hwritten, ?_⟩
    refine Option.bind_eq_some_iff.mpr ⟨entries, rfl, ?_⟩
    refine Option.bind_eq_some_iff.mpr ⟨schemas, hread, ?_⟩
    exact Option.bind_eq_some_iff.mpr ⟨types, htypes, rfl⟩
  · have hmembers : ((Json.object members).members.lookup "schemas").getD .null =
        .object entries := by
      show (members.lookup "schemas").getD .null = .object entries
      rw [hwritten]
      rfl
    unfold Json.declaredSchemas
    rw [hmembers]
    exact hsame

/-- A document without violations can be read, as the schemas that it declares. -/
theorem exists_document {value : Json} (h : Grammar.violations value = []) :
    ∃ document, Document.ofJson? value = some document ∧ value.Declares document.schemas := by
  obtain ⟨document, hread, hsame⟩ := exists_document_readAs h
  exact ⟨document, hread, hsame.imp fun _ _ _ _ _ hfields ↦
    hfields.imp fun _ _ _ _ _ hfield ↦ hfield.exists_descriptor⟩

end DocumentTypes

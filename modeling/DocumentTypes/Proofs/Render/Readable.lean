import DocumentTypes.Proofs.Render.Block
import DocumentTypes.Proofs.Text.ClosingMark
import Mathlib.Data.List.Basic

/-!
Definitions that can be told apart by their text. A description stands in the text as it is, between
marks. Where the mark that closes a description does not begin inside of it, and names are made of
letters, digits and underscores (`PrintedType.Readable`), what a definition says can be read off
from the text, whatever follows (`PrintedType.block_inj`), and so it is with several definitions
(`PrintedType.intercalate_inj`).
-/

set_option autoImplicit false

namespace DocumentTypes

/-- The mark that closes the description of a type. -/
def typeMark : List Char := ['\n', '"', '"', '"', '\n']

/-- The mark that closes the description of a field. -/
def fieldMark : List Char := ['"', '\n']

/-- A field whose name is a name, and whose type is on one line. -/
structure PrintedField.Readable (field : PrintedField) : Prop where
  name : TypeExpr.isName field.name.toList
  type : '\n' ∉ field.type.toList
  description : ∀ text ∈ field.description, Text.Closes fieldMark text.toList

/-- A type that lists fields, whose name is a name. -/
structure PrintedType.Readable (type : PrintedType) : Prop where
  kind : type.kind.listsFields
  name : TypeExpr.isName type.name.toList
  description : ∀ text ∈ type.description, Text.Closes typeMark text.toList
  fields : ∀ field ∈ type.fields, field.Readable

/-- Descriptions without quotation marks close. -/
theorem closes_of_no_quotes {text : String} (h : '"' ∉ text.toList) :
    Text.Closes typeMark text.toList ∧ Text.Closes fieldMark text.toList := by
  constructor
  · have hfront : '"' ∉ ['\n'] := by decide
    exact Text.closes_of_notMem (List.cons_ne_nil '"' ['"', '\n']) hfront h
  · exact Text.closes_of_notMem (List.cons_ne_nil '\n' []) List.not_mem_nil h

/-- Marks may stand inside a line of a description. -/
example : Text.Closes typeMark "Milled, or \"\"\"ground\"\"\"".toList := by decide

/-! ### The characters of a definition -/

theorem toList_line (text : String) : (World.line text).toList = text.toList ++ ['\n'] := by
  rw [World.line, String.toList_append]
  rfl

theorem toList_descriptionBlock (description : Option String) :
    (World.descriptionBlock description).toList =
      Text.enclosed ['"', '"', '"', '\n'] typeMark (description.map String.toList) := by
  cases description with
  | none => rfl
  | some text =>
    rw [World.descriptionBlock, String.toList_append, String.toList_append, List.append_assoc]
    rfl

theorem toList_descriptionLine (description : Option String) :
    (PrintedField.descriptionLine description).toList =
      Text.enclosed [' ', ' ', '"'] fieldMark (description.map String.toList) := by
  cases description with
  | none => rfl
  | some text =>
    rw [PrintedField.descriptionLine, toList_line, String.toList_append, String.toList_append,
      List.append_assoc, List.append_assoc]
    rfl

theorem PrintedField.toList_lines_append (field : PrintedField) (rest : List Char) :
    field.lines.toList ++ rest =
      Text.enclosed [' ', ' ', '"'] fieldMark (field.description.map String.toList) ++
        ' ' :: ' ' :: (field.name.toList ++ ':' :: ' ' :: (field.type.toList ++ '\n' :: rest)) := by
  rw [lines, String.toList_append, toList_line, toList_descriptionLine]
  simp [String.toList_append]

theorem PrintedType.toList_block_append (type : PrintedType) (rest : List Char) :
    type.block.toList ++ rest =
      Text.enclosed ['"', '"', '"', '\n'] typeMark (type.description.map String.toList) ++
        (type.kind.keyword.toList ++ ' ' :: (type.name.toList ++ ' ' :: '\x7b' :: '\n' ::
          (type.fields.flatMap (fun field ↦ field.lines.toList) ++ '\x7d' :: '\n' :: rest))) := by
  rw [block, String.toList_append, String.toList_append, String.toList_append, toList_line,
    toList_line, toList_descriptionBlock, String.toList_join, List.flatMap_map]
  simp [String.toList_append]

/-! ### Names and keywords -/

theorem isNameRest_of_isName {name : List Char} (h : TypeExpr.isName name) :
    ∀ c ∈ name, TypeExpr.isNameRest c := by
  cases name with
  | nil => exact absurd h Bool.false_ne_true
  | cons first rest =>
    rw [TypeExpr.isName, Bool.and_eq_true, List.all_eq_true] at h
    refine List.forall_mem_cons.mpr ⟨?_, h.2⟩
    have hfirst := h.1
    rw [TypeExpr.isNameStart, Bool.or_eq_true] at hfirst
    rw [TypeExpr.isNameRest, Char.isAlphanum, Bool.or_eq_true, Bool.or_eq_true]
    exact hfirst.imp_left Or.inl

/-- What is not a letter, a digit or an underscore is not in a name. -/
theorem notMem_of_isName {name : List Char} (h : TypeExpr.isName name) {c : Char}
    (hc : TypeExpr.isNameRest c = false) : c ∉ name := by
  intro hmem
  rw [isNameRest_of_isName h c hmem] at hc
  exact absurd hc (by decide)

theorem space_notMem_keyword (kind : ClassKind) : ' ' ∉ kind.keyword.toList := by
  cases kind <;> decide

theorem keyword_inj {kind kind' : ClassKind} (h : kind.keyword = kind'.keyword) : kind = kind' := by
  rw [← Option.some_inj, ← kind.ofKeyword?_keyword, h, kind'.ofKeyword?_keyword]

/-! ### Reading off -/

/-- A description and what follows can be read off, as long as this does not begin like another
description. -/
theorem description_inj {opening mark rest rest' : List Char}
    {description description' : Option String}
    (hcloses : ∀ text ∈ description, Text.Closes mark text.toList)
    (hcloses' : ∀ text ∈ description', Text.Closes mark text.toList)
    (hrest : ¬ opening <+: rest) (hrest' : ¬ opening <+: rest')
    (h : Text.enclosed opening mark (description.map String.toList) ++ rest =
      Text.enclosed opening mark (description'.map String.toList) ++ rest') :
    description = description' ∧ rest = rest' := by
  have hchars (described : Option String)
      (hcloses : ∀ text ∈ described, Text.Closes mark text.toList) :
      ∀ inner ∈ described.map String.toList, Text.Closes mark inner := by
    intro inner hinner
    obtain ⟨text, htext, rfl⟩ := Option.map_eq_some_iff.mp hinner
    exact hcloses text htext
  obtain ⟨hdescription, hrest⟩ :=
    Text.enclosed_inj (hchars _ hcloses) (hchars _ hcloses') hrest hrest' h
  exact ⟨Option.map_injective (fun _ _ ↦ String.toList_injective) hdescription, hrest⟩

/-- The line with the name of a field does not begin like the description of one. -/
theorem not_prefix_of_isName {name : List Char} (h : TypeExpr.isName name) (rest : List Char) :
    ¬ [' ', ' ', '"'] <+: ' ' :: ' ' :: (name ++ rest) := by
  cases name with
  | nil => exact absurd h Bool.false_ne_true
  | cons first more =>
    have hquote := notMem_of_isName h (c := '"') (by decide)
    rintro ⟨after, hafter⟩
    have hfirst : '"' = first := Option.some.inj (congrArg (fun l ↦ l[2]?) hafter)
    exact hquote (hfirst ▸ List.mem_cons_self)

theorem PrintedField.lines_inj {field field' : PrintedField} (hfield : field.Readable)
    (hfield' : field'.Readable) {rest rest' : List Char}
    (h : field.lines.toList ++ rest = field'.lines.toList ++ rest') :
    field = field' ∧ rest = rest' := by
  rw [toList_lines_append, toList_lines_append] at h
  obtain ⟨hdescription, h⟩ := description_inj hfield.description hfield'.description
    (not_prefix_of_isName hfield.name _) (not_prefix_of_isName hfield'.name _) h
  have hnamed := (List.cons.inj (List.cons.inj h).2).2
  obtain ⟨hname, htyped⟩ := Text.append_cons_inj (notMem_of_isName hfield.name (by decide))
    (notMem_of_isName hfield'.name (by decide)) hnamed
  obtain ⟨htype, hrest⟩ :=
    Text.append_cons_inj hfield.type hfield'.type (List.cons.inj htyped).2
  obtain ⟨name, type, description⟩ := field
  obtain ⟨name', type', description'⟩ := field'
  obtain rfl : name = name' := String.toList_injective hname
  obtain rfl : type = type' := String.toList_injective htype
  obtain rfl : description = description' := hdescription
  exact ⟨rfl, hrest⟩

/-- The lines of a field do not begin like the line that ends a definition. -/
theorem PrintedField.lines_ne_brace (field : PrintedField) (more rest : List Char) :
    field.lines.toList ++ more ≠ '\x7d' :: rest := by
  rw [toList_lines_append]
  cases field.description with
  | none => exact fun h ↦ absurd (List.cons.inj h).1 (by decide)
  | some text => exact fun h ↦ absurd (List.cons.inj h).1 (by decide)

/-- The line that opens a definition does not begin like a description. -/
theorem not_prefix_keyword (kind : ClassKind) (rest : List Char) :
    ¬ ['"', '"', '"', '\n'] <+: kind.keyword.toList ++ rest := by
  rintro ⟨after, hafter⟩
  have hfirst := congrArg (fun l ↦ l[0]?) hafter
  cases kind <;> exact absurd (Option.some.inj hfirst) (by decide)

/-- A definition and what follows it can be read off. -/
theorem PrintedType.block_inj {type type' : PrintedType} (htype : type.Readable)
    (htype' : type'.Readable) {rest rest' : List Char}
    (h : type.block.toList ++ rest = type'.block.toList ++ rest') :
    type = type' ∧ rest = rest' := by
  rw [toList_block_append, toList_block_append] at h
  obtain ⟨hdescription, h⟩ := description_inj htype.description htype'.description
    (not_prefix_keyword type.kind _) (not_prefix_keyword type'.kind _) h
  obtain ⟨hkeyword, h⟩ := Text.append_cons_inj (space_notMem_keyword type.kind)
    (space_notMem_keyword type'.kind) h
  obtain ⟨hname, h⟩ := Text.append_cons_inj (notMem_of_isName htype.name (by decide))
    (notMem_of_isName htype'.name (by decide)) h
  obtain ⟨hfields, hclosed⟩ := Text.flatMap_inj
    (fun field hfield field' hfield' _ _ ↦
      PrintedField.lines_inj (htype.fields field hfield) (htype'.fields field' hfield'))
    (fun field more ↦ field.lines_ne_brace more _) (fun field more ↦ field.lines_ne_brace more _)
    (List.cons.inj (List.cons.inj h).2).2
  obtain ⟨name, kind, description, fields⟩ := type
  obtain ⟨name', kind', description', fields'⟩ := type'
  obtain rfl : name = name' := String.toList_injective hname
  obtain rfl : kind = kind' := keyword_inj (String.toList_injective hkeyword)
  obtain rfl : description = description' := hdescription
  obtain rfl : fields = fields' := hfields
  exact ⟨rfl, (List.cons.inj (List.cons.inj hclosed).2).2⟩

/-! ### Several definitions -/

theorem toList_intercalate_blocks (type : PrintedType) (types : List PrintedType) :
    ("\n".intercalate ((type :: types).map PrintedType.block)).toList =
      type.block.toList ++ types.flatMap fun type ↦ '\n' :: type.block.toList := by
  rw [List.map_cons, Text.toList_intercalate_cons, List.flatMap_map]
  rfl

/-- The definitions of readable types can be told apart by their text. -/
theorem PrintedType.intercalate_inj {types types' : List PrintedType}
    (htypes : ∀ type ∈ types, type.Readable) (htypes' : ∀ type ∈ types', type.Readable)
    (h : "\n".intercalate (types.map block) = "\n".intercalate (types'.map block)) :
    types = types' := by
  have hne (type : PrintedType) (rest : List Char) : type.block.toList ++ rest ≠ [] := by
    rw [toList_block_append]
    simp
  have hchars := congrArg String.toList h
  cases types with
  | nil =>
    cases types' with
    | nil => rfl
    | cons type' more' =>
      rw [toList_intercalate_blocks] at hchars
      exact absurd hchars.symm (hne type' _)
  | cons type more =>
    cases types' with
    | nil =>
      rw [toList_intercalate_blocks] at hchars
      exact absurd hchars (hne type _)
    | cons type' more' =>
      obtain ⟨htype, hmore⟩ := List.forall_mem_cons.mp htypes
      obtain ⟨htype', hmore'⟩ := List.forall_mem_cons.mp htypes'
      rw [toList_intercalate_blocks, toList_intercalate_blocks] at hchars
      obtain ⟨rfl, hafter⟩ := block_inj htype htype' hchars
      rw [← List.append_nil (more.flatMap _), ← List.append_nil (more'.flatMap _)] at hafter
      obtain ⟨rfl, -⟩ := Text.flatMap_inj
        (fun next hnext next' hnext' _ _ hblocks ↦
          block_inj (hmore next hnext) (hmore' next' hnext') (List.cons.inj hblocks).2)
        (fun next rest ↦ List.cons_ne_nil _ _) (fun next rest ↦ List.cons_ne_nil _ _) hafter
      rfl

end DocumentTypes

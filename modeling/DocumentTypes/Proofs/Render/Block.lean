import DocumentTypes.Proofs.Render.Outline
import DocumentTypes.Render.Sdl

/-!
What the definition of a type that lists fields says (`PrintedType`), and how it is written
(`PrintedType.block`). It says what the outline of the type says, with the types of fields as texts
(`World.sdlBlock_eq_block`).
-/

set_option autoImplicit false

namespace DocumentTypes

/-- Whether the definitions of the class list fields with their types. -/
def ClassKind.listsFields : ClassKind → Bool
  | .object | .inputObject | .interface => true
  | .union | .enum => false

/-- A field in a definition, with its type as a text. -/
structure PrintedField where
  name : String
  type : String
  description : Option String
deriving DecidableEq, Repr

/-- What the definition of a type says. -/
structure PrintedType where
  name : String
  kind : ClassKind
  description : Option String
  fields : List PrintedField
deriving DecidableEq, Repr

def FieldOutline.printed (field : FieldOutline) : PrintedField :=
  ⟨field.name, field.type.text, field.description⟩

def TypeOutline.printed (type : TypeOutline) : PrintedType :=
  ⟨type.name, type.kind, type.description, type.fields.map FieldOutline.printed⟩

/-- The line that describes a field. -/
def PrintedField.descriptionLine : Option String → String
  | none => ""
  | some description => World.line ("  \"" ++ description ++ "\"")

/-- The lines of a field. -/
def PrintedField.lines (field : PrintedField) : String :=
  descriptionLine field.description ++ World.line ("  " ++ field.name ++ ": " ++ field.type)

/-- The lines of a definition that lists fields. -/
def PrintedType.block (type : PrintedType) : String :=
  World.descriptionBlock type.description ++
    (World.line (type.kind.keyword ++ " " ++ type.name ++ " \x7b") ++
      String.join (type.fields.map PrintedField.lines) ++ World.line "\x7d")

namespace World

variable {P : Producers}

/-- What the definition of a type with the given fields says. -/
def printed (w : World P) (type : TypeId) (fields : FieldMap) : PrintedType :=
  (w.outline type fields).printed

theorem fieldLines_eq_lines (w : World P) (field : String × FieldSpec) :
    w.fieldLines field.1 field.2 = (w.fieldOutline field).printed.lines := by
  rw [PrintedField.lines, FieldOutline.printed, fieldOutline, text_typeExpr]
  rfl

theorem sdlBlock_eq_block (w : World P) {type : TypeId} (fields : FieldMap)
    (hkind : (w.typeAt type).kind.listsFields) :
    w.sdlBlock type fields = (w.printed type fields).block := by
  have hfields : fields.entries.map (fun field ↦ w.fieldLines field.1 field.2) =
      (w.printed type fields).fields.map PrintedField.lines := by
    show _ = ((fields.entries.map w.fieldOutline).map FieldOutline.printed).map PrintedField.lines
    rw [List.map_map, List.map_map]
    exact List.map_congr_left fun field _ ↦ w.fieldLines_eq_lines field
  rw [sdlBlock, PrintedType.block, ← hfields]
  cases hclass : (w.typeAt type).kind with
  | object => simp only [printed, TypeOutline.printed, outline, hclass]
  | inputObject => simp only [printed, TypeOutline.printed, outline, hclass]
  | interface => simp only [printed, TypeOutline.printed, outline, hclass]
  | union => rw [hclass] at hkind; exact absurd hkind Bool.false_ne_true
  | enum => rw [hclass] at hkind; exact absurd hkind Bool.false_ne_true

end World

end DocumentTypes

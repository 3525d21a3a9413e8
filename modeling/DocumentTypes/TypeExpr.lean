import DocumentTypes.Kind
import DocumentTypes.Text.Blank

/-!
Type expressions: a scalar name, the name of a type, or an expression in brackets for a list of
it, with blanks allowed around each part.
-/

set_option autoImplicit false

namespace DocumentTypes

inductive TypeExpr where
  | scalar (scalar : Scalar)
  | list (element : TypeExpr)
  | named (name : String)
deriving DecidableEq, Repr

namespace TypeExpr

def isNameStart (c : Char) : Bool :=
  c.isAlpha || c = '_'

def isNameRest (c : Char) : Bool :=
  c.isAlphanum || c = '_'

/-- Names of types are made of ASCII letters, digits and underscores, with no digit in front. -/
def isName : List Char → Bool
  | [] => false
  | c :: rest => isNameStart c && rest.all isNameRest

/-- What stands between an opening bracket in front and a closing bracket at the end. -/
def unbracket? : List Char → Option (List Char)
  | '[' :: rest => if rest.getLast? = some ']' then some rest.dropLast else none
  | _ => none

theorem length_unbracket?_lt {cs inner : List Char} (h : unbracket? cs = some inner) :
    inner.length < cs.length := by
  unfold unbracket? at h
  split at h
  · split at h
    · cases h
      simp only [List.length_dropLast, List.length_cons]
      omega
    · cases h
  · cases h

/-- Reads an expression from its characters. -/
def ofChars? (cs : List Char) : Option TypeExpr :=
  match _h : unbracket? (Text.trim cs) with
  | some inner => (ofChars? inner).map list
  | none =>
    let name := String.ofList (Text.trim cs)
    match Scalar.ofName? name with
    | some s => some (.scalar s)
    | none => if isName (Text.trim cs) then some (.named name) else none
termination_by cs.length
decreasing_by exact Nat.lt_of_lt_of_le (length_unbracket?_lt _h) (Text.length_trim_le cs)

/-- Reads an expression. -/
def ofText? (text : String) : Option TypeExpr :=
  ofChars? text.toList

/-- The number of brackets around the innermost name, and that name. -/
def depth : TypeExpr → Nat
  | list element => element.depth + 1
  | _ => 0

/-- The expression inside all brackets. -/
def innermost : TypeExpr → TypeExpr
  | list element => element.innermost
  | expr => expr

/-- The expression without blanks. -/
def text : TypeExpr → String
  | scalar s => s.name
  | list element => "[" ++ element.text ++ "]"
  | named name => name

end TypeExpr

end DocumentTypes

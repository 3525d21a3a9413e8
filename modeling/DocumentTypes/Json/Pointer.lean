import DocumentTypes.Json

/-!
Pointers to values inside a JSON value.
-/

set_option autoImplicit false

namespace DocumentTypes.Json

/-- One step from a value to a part of it. -/
inductive Segment where
  | member (name : String)
  | item (index : Nat)
deriving DecidableEq, Repr

/-- The steps from the root to a part. -/
abbrev Pointer := List Segment

/-- A name inside a pointer: the tilde and the slash are escaped. -/
def escapeSegment (name : String) : String :=
  name.foldl (fun text c ↦
    text ++ (if c = '~' then "~0" else if c = '/' then "~1" else String.singleton c)) ""

def Segment.text : Segment → String
  | member name => escapeSegment name
  | item index => toString index

/-- The text of a pointer; empty for the root. -/
def Pointer.text (path : Pointer) : String :=
  String.join (path.map fun segment ↦ "/" ++ segment.text)

end DocumentTypes.Json

/-!
JSON values. The members of an object keep the order in which they were written.
-/

set_option autoImplicit false

namespace DocumentTypes

/-- A number: an integer, or the bit pattern of a binary64 number. -/
inductive Json.Number where
  | integer (value : Int)
  | float (bits : UInt64)
deriving DecidableEq, Repr

inductive Json where
  | null
  | bool (value : Bool)
  | number (value : Json.Number)
  | string (value : String)
  | array (items : List Json)
  | object (members : List (String × Json))
deriving Repr

namespace Json

def string? : Json → Option String
  | string value => some value
  | _ => none

def array? : Json → Option (List Json)
  | array items => some items
  | _ => none

def object? : Json → Option (List (String × Json))
  | object members => some members
  | _ => none

end Json

end DocumentTypes

import DocumentTypes.Json.Number

/-!
The text of JSON values: on one line without blanks (`Json.text`), and indented by two spaces for
each level (`Json.prettyText`). Only the quote, the backslash and control characters are escaped.
-/

set_option autoImplicit false

namespace DocumentTypes.Json

/-- A character inside a quoted text. -/
def escapeChar (c : Char) : String :=
  if c = '"' then "\\\""
  else if c = '\\' then "\\\\"
  else if c = '\x08' then "\\b"
  else if c = '\t' then "\\t"
  else if c = '\n' then "\\n"
  else if c = '\x0c' then "\\f"
  else if c = '\x0d' then "\\r"
  else if c.toNat < 0x20 then
    "\\u00" ++ String.ofList [Nat.digitChar (c.toNat / 16), Nat.digitChar (c.toNat % 16)]
  else String.singleton c

/-- A quoted text. -/
def quote (s : String) : String :=
  "\"" ++ s.foldl (fun text c ↦ text ++ escapeChar c) "" ++ "\""

mutual

/-- The text of a value on one line, without blanks. -/
def text : Json → String
  | null => "null"
  | bool value => if value then "true" else "false"
  | number value => value.text
  | string value => quote value
  | array items => "[" ++ ",".intercalate (itemTexts items) ++ "]"
  | object members => "\x7b" ++ ",".intercalate (memberTexts members) ++ "\x7d"

def itemTexts : List Json → List String
  | [] => []
  | item :: rest => item.text :: itemTexts rest

def memberTexts : List (String × Json) → List String
  | [] => []
  | (name, value) :: rest => (quote name ++ ":" ++ value.text) :: memberTexts rest

end

/-- The start of a line inside `depth` levels. -/
def lineStart (depth : Nat) : String :=
  "\n" ++ String.ofList (List.replicate (2 * depth) ' ')

/-- Parts between brackets, each on a line of its own one level further in. -/
def block (opening closing : String) (depth : Nat) (parts : List String) : String :=
  opening ++ lineStart (depth + 1) ++ ("," ++ lineStart (depth + 1)).intercalate parts ++
    lineStart depth ++ closing

mutual

/-- The indented text of a value inside `depth` levels. -/
def prettyTextAt (depth : Nat) : Json → String
  | null => "null"
  | bool value => if value then "true" else "false"
  | number value => value.text
  | string value => quote value
  | array [] => "[]"
  | array (item :: rest) =>
    block "[" "]" depth (item.prettyTextAt (depth + 1) :: prettyItemTexts (depth + 1) rest)
  | object [] => "\x7b\x7d"
  | object ((name, value) :: rest) =>
    block "\x7b" "\x7d" depth
      ((quote name ++ ": " ++ value.prettyTextAt (depth + 1)) ::
        prettyMemberTexts (depth + 1) rest)

def prettyItemTexts (depth : Nat) : List Json → List String
  | [] => []
  | item :: rest => item.prettyTextAt depth :: prettyItemTexts depth rest

def prettyMemberTexts (depth : Nat) : List (String × Json) → List String
  | [] => []
  | (name, value) :: rest =>
    (quote name ++ ": " ++ value.prettyTextAt depth) :: prettyMemberTexts depth rest

end

/-- The text of a value over several lines. -/
def prettyText (value : Json) : String :=
  value.prettyTextAt 0

end DocumentTypes.Json

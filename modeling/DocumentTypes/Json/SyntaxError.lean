/-!
Errors in JSON text and the place where they are reported. Lines are counted from one, columns in
bytes of UTF-8 since the last line break.
-/

set_option autoImplicit false

namespace DocumentTypes.Json

/-- What is wrong with a text. -/
inductive SyntaxError.Cause where
  | endInValue
  | endInList
  | endInObject
  | endInString
  | expectedColon
  | expectedListCommaOrEnd
  | expectedObjectCommaOrEnd
  | expectedIdent
  | expectedValue
  | invalidEscape
  | invalidNumber
  | numberOutOfRange
  | controlCharacter
  | keyMustBeString
  | loneLeadingSurrogate
  | unexpectedEndOfHexEscape
  | trailingComma
  | trailingCharacters
  | recursionLimitExceeded
deriving DecidableEq, Repr

def SyntaxError.Cause.text : SyntaxError.Cause → String
  | endInValue => "EOF while parsing a value"
  | endInList => "EOF while parsing a list"
  | endInObject => "EOF while parsing an object"
  | endInString => "EOF while parsing a string"
  | expectedColon => "expected `:`"
  | expectedListCommaOrEnd => "expected `,` or `]`"
  | expectedObjectCommaOrEnd => "expected `,` or `\x7d`"
  | expectedIdent => "expected ident"
  | expectedValue => "expected value"
  | invalidEscape => "invalid escape"
  | invalidNumber => "invalid number"
  | numberOutOfRange => "number out of range"
  | controlCharacter => "control character (\\u0000-\\u001F) found while parsing a string"
  | keyMustBeString => "key must be a string"
  | loneLeadingSurrogate => "lone leading surrogate in hex escape"
  | unexpectedEndOfHexEscape => "unexpected end of hex escape"
  | trailingComma => "trailing comma"
  | trailingCharacters => "trailing characters"
  | recursionLimitExceeded => "recursion limit exceeded"

/-- A cause and the place of its report. -/
structure SyntaxError where
  cause : SyntaxError.Cause
  line : Nat
  column : Nat
deriving DecidableEq, Repr

namespace SyntaxError

def message (e : SyntaxError) : String :=
  e.cause.text ++ " at line " ++ toString e.line ++ " column " ++ toString e.column

/-- The place after `bytes` bytes of a text. A place inside a character counts the bytes before
it. -/
def place : List Char → (bytes line column : Nat) → Nat × Nat
  | [], _, line, column => (line, column)
  | c :: rest, bytes, line, column =>
    if c.utf8Size ≤ bytes then
      if c = '\n' then place rest (bytes - c.utf8Size) (line + 1) 0
      else place rest (bytes - c.utf8Size) line (column + c.utf8Size)
    else (line, column + bytes)

end SyntaxError

end DocumentTypes.Json

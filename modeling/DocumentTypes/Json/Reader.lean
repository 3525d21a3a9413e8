import DocumentTypes.Json
import DocumentTypes.Json.SyntaxError
import DocumentTypes.OrderedMap

/-!
Reading JSON text. Every reader takes the characters that are left and gives its value with the
characters that are left after it, fewer than before (`Rest`). An error is reported with the number
of bytes between its place and the end of the text (`Fault`); `Json.read` turns that into a line
and a column. A repeated member keeps its first position and takes its last value.
-/

set_option autoImplicit false

namespace DocumentTypes.Json

/-- The number of bytes that characters take in UTF-8. -/
def byteCount : List Char → Nat
  | [] => 0
  | c :: rest => c.utf8Size + byteCount rest

/-- An error, with the number of bytes from its place to the end of the text. -/
structure Fault where
  cause : SyntaxError.Cause
  bytesLeft : Nat

/-- A reader failed in front of `cs`. -/
def failBefore {α : Type} (cause : SyntaxError.Cause) (cs : List Char) : Except Fault α :=
  .error ⟨cause, byteCount cs⟩

/-- A reader failed `bytes` bytes after the start of `cs`, or at its end. -/
def failAfter {α : Type} (cause : SyntaxError.Cause) (bytes : Nat) (cs : List Char) :
    Except Fault α :=
  .error ⟨cause, byteCount cs - bytes⟩

/-- What is left of a text after something was read from it. -/
abbrev Rest (cs : List Char) := { rest : List Char // rest.length < cs.length }

/-- What is left of a text after something that may be empty was read from it. -/
abbrev Tail (cs : List Char) := { rest : List Char // rest.length ≤ cs.length }

def isSpace (c : Char) : Bool :=
  c = ' ' || c = '\n' || c = '\t' || c = '\x0d'

/-- The text without the blanks in front. -/
def skipSpace (cs : List Char) : Tail cs :=
  ⟨cs.dropWhile isSpace, (List.dropWhile_sublist isSpace).length_le⟩

/-! ### Literals and texts -/

/-- Reads the characters of a literal. -/
def readLiteral (value : Json) : (expected cs : List Char) → Except Fault (Json × Tail cs)
  | [], cs => .ok (value, ⟨cs, Nat.le_refl _⟩)
  | _ :: _, [] => failBefore .endInValue []
  | e :: expected, c :: cs =>
    if c = e then
      match readLiteral value expected cs with
      | .error fault => .error fault
      | .ok (value, rest) => .ok (value, ⟨rest.1, Nat.le_succ_of_le rest.2⟩)
    else failAfter .expectedIdent 1 (c :: cs)

def hexDigit? (c : Char) : Option Nat :=
  if '0' ≤ c ∧ c ≤ '9' then some (c.toNat - 48)
  else if 'a' ≤ c ∧ c ≤ 'f' then some (c.toNat - 87)
  else if 'A' ≤ c ∧ c ≤ 'F' then some (c.toNat - 55)
  else none

/-- Reads the four digits of an escape. -/
def readHex (cs : List Char) : Except Fault (Nat × Tail cs) :=
  if byteCount (cs.take 4) < 4 then failBefore .endInString []
  else
    match cs with
    | a :: b :: c :: d :: rest =>
      match hexDigit? a, hexDigit? b, hexDigit? c, hexDigit? d with
      | some a, some b, some c, some d =>
        .ok (((a * 16 + b) * 16 + c) * 16 + d, ⟨rest, by simp; omega⟩)
      | _, _, _, _ => failAfter .invalidEscape 4 cs
    | _ => failAfter .invalidEscape 4 cs

def isLeadingSurrogate (n : Nat) : Bool := 0xD800 ≤ n && n ≤ 0xDBFF

def isTrailingSurrogate (n : Nat) : Bool := 0xDC00 ≤ n && n ≤ 0xDFFF

/-- Requires one character, as part of an escape that continues. -/
def readEscapePart (expected : Char) : (cs : List Char) → Except Fault (Tail cs)
  | [] => failBefore .endInString []
  | c :: rest =>
    if c = expected then .ok ⟨rest, Nat.le_succ _⟩
    else failAfter .unexpectedEndOfHexEscape 1 (c :: rest)

/-- Reads what follows a backslash and `u`: one unit, or a pair of surrogates. -/
def readUnicode (cs : List Char) : Except Fault (Char × Tail cs) :=
  match readHex cs with
  | .error fault => .error fault
  | .ok (n, r) =>
    if isTrailingSurrogate n then failBefore .loneLeadingSurrogate r.1
    else if isLeadingSurrogate n then
      match readEscapePart '\\' r.1 with
      | .error fault => .error fault
      | .ok r₁ =>
        match readEscapePart 'u' r₁.1 with
        | .error fault => .error fault
        | .ok r₂ =>
          match readHex r₂.1 with
          | .error fault => .error fault
          | .ok (m, r₃) =>
            if isTrailingSurrogate m then
              .ok (Char.ofNat (0x10000 + (n - 0xD800) * 0x400 + (m - 0xDC00)),
                ⟨r₃.1, by have := r.2; have := r₁.2; have := r₂.2; have := r₃.2; omega⟩)
            else failBefore .loneLeadingSurrogate r₃.1
    else .ok (Char.ofNat n, r)

/-- Reads what follows a backslash. -/
def readEscape : (cs : List Char) → Except Fault (Char × Tail cs)
  | [] => failBefore .endInString []
  | c :: rest =>
    let plain (value : Char) : Except Fault (Char × Tail (c :: rest)) :=
      .ok (value, ⟨rest, Nat.le_succ _⟩)
    match c with
    | '"' => plain '"'
    | '\\' => plain '\\'
    | '/' => plain '/'
    | 'b' => plain '\x08'
    | 'f' => plain '\x0c'
    | 'n' => plain '\n'
    | 'r' => plain '\x0d'
    | 't' => plain '\t'
    | 'u' =>
      match readUnicode rest with
      | .error fault => .error fault
      | .ok (value, r) => .ok (value, ⟨r.1, Nat.le_succ_of_le r.2⟩)
    | _ => failAfter .invalidEscape 1 (c :: rest)

/-- Reads the characters of a text up to its closing quote. `read` holds those before, the last
one first. -/
def readText (read : List Char) (cs : List Char) : Except Fault (String × Rest cs) :=
  match cs with
  | [] => failBefore .endInString []
  | c :: rest =>
    if c = '"' then .ok (String.ofList read.reverse, ⟨rest, Nat.lt_succ_self _⟩)
    else if c = '\\' then
      match readEscape rest with
      | .error fault => .error fault
      | .ok (value, r) =>
        match readText (value :: read) r.1 with
        | .error fault => .error fault
        | .ok (text, r') => .ok (text, ⟨r'.1, by have := r.2; have := r'.2; simp; omega⟩)
    else if c.toNat < 0x20 then failAfter .controlCharacter 1 (c :: rest)
    else
      match readText (c :: read) rest with
      | .error fault => .error fault
      | .ok (text, r) => .ok (text, ⟨r.1, Nat.lt_succ_of_lt r.2⟩)
termination_by cs.length
decreasing_by
  · have := r.2; simp; omega
  · simp

/-! ### Numbers -/

/-- The digits in front of a text, and the rest. -/
def spanDigits (cs : List Char) : List Nat × Tail cs :=
  ((cs.takeWhile Char.isDigit).map (fun c ↦ c.toNat - 48),
    ⟨cs.dropWhile Char.isDigit, (List.dropWhile_sublist _).length_le⟩)

/-- A whole number with as many of the digits appended as 64 bits can hold, and the digits that
were dropped. -/
def appendDigits (significand : Nat) : List Nat → Nat × List Nat
  | [] => (significand, [])
  | d :: rest =>
    if significand * 10 + d ≤ 0xFFFFFFFFFFFFFFFF then appendDigits (significand * 10 + d) rest
    else (significand, d :: rest)

/-- The powers of ten up to the largest that a binary64 number can hold. -/
def powerOfTen (n : Nat) : Float :=
  Float.ofScientific 1 false n

/-- The number divided by a power of ten, the exponent taken off in steps of at most 308. -/
def divideByPower (value : Float) (n : Nat) : Float :=
  if n ≤ 308 then value / powerOfTen n
  else if value == 0 then value
  else divideByPower (value / powerOfTen 308) (n - 308)
termination_by n

/-- The float nearest to the significand, scaled by a power of ten. A value that is too large has
no float. -/
def scaled? (significand : Nat) (exponent : Int) : Option Float :=
  let value := significand.toUInt64.toFloat
  if exponent < 0 then some (divideByPower value exponent.natAbs)
  else if exponent.natAbs ≤ 308 then
    let scaled := value * powerOfTen exponent.natAbs
    if scaled.isInf then none else some scaled
  else if value == 0 then some value
  else none

/-- The float with the given sign, read up to `cs`. -/
def finishFloat {ds : List Char} (isNegative : Bool) (significand : Nat) (exponent : Int)
    (r : Tail ds) : Except Fault (Number × Tail ds) :=
  match scaled? significand exponent with
  | none => failBefore .numberOutOfRange r.1
  | some value => .ok (.float (if isNegative then -value else value).toBits, r)

/-- An exponent of ten as 32 bits hold it: the digits up to the one that would not fit, and whether
there is such a digit. -/
def exponentOf (exponent : Nat) : List Nat → Nat × Option (List Nat)
  | [] => (exponent, none)
  | d :: rest =>
    if exponent * 10 + d ≤ 0x7FFFFFFF then exponentOf (exponent * 10 + d) rest
    else (exponent, some rest)

/-- Reads an exponent after its letter. -/
def readExponent {ds : List Char} (isNegative : Bool) (significand : Nat) (exponent : Int)
    (r : Tail ds) : Except Fault (Number × Tail ds) :=
  let (isDown, r₁) : Bool × Tail r.1 :=
    match r.1 with
    | '+' :: rest => (false, ⟨rest, Nat.le_succ _⟩)
    | '-' :: rest => (true, ⟨rest, Nat.le_succ _⟩)
    | rest => (false, ⟨rest, Nat.le_refl _⟩)
  match spanDigits r₁.1 with
  | ([], _) =>
    match r₁.1 with
    | [] => failBefore .endInValue []
    | cs => failAfter .invalidNumber 1 cs
  | (digits, r₂) =>
    let r₃ : Tail ds := ⟨r₂.1, Nat.le_trans r₂.2 (Nat.le_trans r₁.2 r.2)⟩
    match exponentOf 0 digits with
    | (value, none) =>
      finishFloat isNegative significand (if isDown then exponent - value else exponent + value) r₃
    | (_, some dropped) =>
      if significand ≠ 0 ∧ isDown = false then
        .error ⟨.numberOutOfRange, dropped.length + byteCount r₃.1⟩
      else .ok (.float (if isNegative then -0.0 else 0.0 : Float).toBits, r₃)

/-- Reads an exponent if one follows. -/
def readExponent? {ds : List Char} (isNegative : Bool) (significand : Nat) (exponent : Int)
    (r : Tail ds) : Except Fault (Number × Tail ds) :=
  match r.1, r.2 with
  | c :: rest, h =>
    if c = 'e' ∨ c = 'E' then
      readExponent isNegative significand exponent ⟨rest, Nat.le_of_succ_le h⟩
    else finishFloat isNegative significand exponent r
  | [], _ => finishFloat isNegative significand exponent r

/-- Reads the digits after a decimal point. `exponent` counts the digits before it that the
significand does not hold. -/
def readDecimals {ds : List Char} (isNegative : Bool) (significand exponent : Nat)
    (r : Tail ds) : Except Fault (Number × Tail ds) :=
  match spanDigits r.1 with
  | ([], _) =>
    match r.1 with
    | [] => failBefore .endInValue []
    | cs => failAfter .invalidNumber 1 cs
  | (digits, r₁) =>
    let (all, dropped) := appendDigits significand digits
    let kept := digits.length - dropped.length
    readExponent? isNegative all ((exponent : Int) - kept) ⟨r₁.1, Nat.le_trans r₁.2 r.2⟩

/-- What a number is whose whole digits are read: an integer if it fits into 64 bits and nothing
else follows, a float otherwise. -/
def finishNumber {ds : List Char} (isNegative : Bool) (significand : Nat) (dropped : Nat)
    (r : Tail ds) : Except Fault (Number × Tail ds) :=
  let otherwise : Except Fault (Number × Tail ds) :=
    if dropped ≠ 0 then finishFloat isNegative significand dropped r
    else if isNegative = false then .ok (.integer significand, r)
    else if significand = 0 ∨ 0x8000000000000000 < significand then finishFloat true significand 0 r
    else .ok (.integer (-(significand : Int)), r)
  match r.1, r.2 with
  | c :: rest, h =>
    if c = '.' then readDecimals isNegative significand dropped ⟨rest, Nat.le_of_succ_le h⟩
    else if c = 'e' ∨ c = 'E' then
      readExponent isNegative significand dropped ⟨rest, Nat.le_of_succ_le h⟩
    else otherwise
  | [], _ => otherwise

/-- Reads a number whose first digit is `c`. A zero in front stands alone. -/
def readNumber (isNegative : Bool) (c : Char) (rest : List Char) :
    Except Fault (Number × Tail rest) :=
  match spanDigits rest with
  | (digits, r) =>
    if c = '0' then
      if digits.isEmpty then finishNumber isNegative 0 0 ⟨rest, Nat.le_refl _⟩
      else failAfter .invalidNumber 1 rest
    else
      let (significand, dropped) := appendDigits (c.toNat - 48) digits
      finishNumber isNegative significand dropped.length r

/-- Reads a number after a minus sign. -/
def readNegative (rest : List Char) : Except Fault (Number × Tail rest) :=
  match rest with
  | [] => failBefore .endInValue []
  | c :: more =>
    if c.isDigit then
      match readNumber true c more with
      | .error fault => .error fault
      | .ok (value, r) => .ok (value, ⟨r.1, Nat.le_succ_of_le r.2⟩)
    else failAfter .invalidNumber 1 (c :: more)

/-! ### Values -/

/-- Reads a member's name after its opening quote, and the colon. -/
def readKey (cs : List Char) : Except Fault (String × Rest cs) :=
  match readText [] cs with
  | .error fault => .error fault
  | .ok (key, r) =>
    match skipSpace r.1 with
    | ⟨[], _⟩ => failBefore .endInObject []
    | ⟨c :: rest, h⟩ =>
      if c = ':' then .ok (key, ⟨rest, by have := r.2; simp at h; omega⟩)
      else failAfter .expectedColon 1 (c :: rest)

/-- The start of the next item of a list whose end is not reached, in `c :: rest`. -/
def nextItem (isFirst : Bool) (c : Char) (rest : List Char) : Except Fault (Tail (c :: rest)) :=
  if isFirst then .ok ⟨c :: rest, Nat.le_refl _⟩
  else if c = ',' then
    match skipSpace rest with
    | ⟨[], _⟩ => failBefore .endInValue []
    | ⟨d :: more, h⟩ =>
      if d = ']' then failAfter .trailingComma 1 (d :: more)
      else .ok ⟨d :: more, Nat.le_succ_of_le h⟩
  else failAfter .expectedListCommaOrEnd 1 (c :: rest)

/-- What follows the opening quote of the next member of an object whose end is not reached, in
`c :: rest`. -/
def nextMember (isFirst : Bool) (c : Char) (rest : List Char) : Except Fault (Rest (c :: rest)) :=
  if isFirst then
    if c = '"' then .ok ⟨rest, Nat.lt_succ_self _⟩
    else failAfter .keyMustBeString 1 (c :: rest)
  else if c = ',' then
    match skipSpace rest with
    | ⟨[], _⟩ => failBefore .endInValue []
    | ⟨d :: more, h⟩ =>
      if d = '"' then .ok ⟨more, Nat.lt_succ_of_lt h⟩
      else if d = '\x7d' then failAfter .trailingComma 1 (d :: more)
      else failAfter .keyMustBeString 1 (d :: more)
  else failAfter .expectedObjectCommaOrEnd 1 (c :: rest)

mutual

/-- Reads a value. `depth` more lists and objects may be opened inside each other. -/
def readValue (depth : Nat) (cs : List Char) : Except Fault (Json × Rest cs) :=
  match skipSpace cs with
  | ⟨[], _⟩ => failBefore .endInValue []
  | ⟨c :: rest, h⟩ =>
    let after {α : Type} (make : α → Json) :
        Except Fault (α × Tail rest) → Except Fault (Json × Rest cs)
      | .error fault => .error fault
      | .ok (value, r) => .ok (make value, ⟨r.1, by have := r.2; simp at h; omega⟩)
    if c = 'n' then after id (readLiteral .null "ull".toList rest)
    else if c = 't' then after id (readLiteral (.bool true) "rue".toList rest)
    else if c = 'f' then after id (readLiteral (.bool false) "alse".toList rest)
    else if c = '-' then after .number (readNegative rest)
    else if c.isDigit then after .number (readNumber false c rest)
    else if c = '"' then
      match readText [] rest with
      | .error fault => .error fault
      | .ok (value, r) => .ok (.string value, ⟨r.1, by have := r.2; simp at h; omega⟩)
    else if c = '[' then
      match depth with
      | 0 => failAfter .recursionLimitExceeded 1 (c :: rest)
      | depth + 1 =>
        match readItems depth true rest with
        | .error fault => .error fault
        | .ok (items, r) => .ok (.array items, ⟨r.1, by have := r.2; simp at h; omega⟩)
    else if c = '\x7b' then
      match depth with
      | 0 => failAfter .recursionLimitExceeded 1 (c :: rest)
      | depth + 1 =>
        match readMembers depth true [] rest with
        | .error fault => .error fault
        | .ok (members, r) => .ok (.object members, ⟨r.1, by have := r.2; simp at h; omega⟩)
    else failAfter .expectedValue 1 (c :: rest)
termination_by 2 * cs.length
decreasing_by
  all_goals simp at h; omega

/-- Reads the items of a list up to its closing bracket. -/
def readItems (depth : Nat) (isFirst : Bool) (cs : List Char) :
    Except Fault (List Json × Rest cs) :=
  match skipSpace cs with
  | ⟨[], _⟩ => failBefore .endInList []
  | ⟨c :: rest, h⟩ =>
    if c = ']' then .ok ([], ⟨rest, h⟩)
    else
      match nextItem isFirst c rest with
      | .error fault => .error fault
      | .ok start =>
        match readValue depth start.1 with
        | .error fault => .error fault
        | .ok (item, r) =>
          match readItems depth false r.1 with
          | .error fault => .error fault
          | .ok (items, r') =>
            .ok (item :: items,
              ⟨r'.1, by have := start.2; have := r.2; have := r'.2; omega⟩)
termination_by 2 * cs.length + 1
decreasing_by
  · have := start.2; omega
  · have := start.2; have := r.2; omega

/-- Reads the members of an object up to its closing brace, after those in `members`. -/
def readMembers (depth : Nat) (isFirst : Bool) (members : List (String × Json))
    (cs : List Char) : Except Fault (List (String × Json) × Rest cs) :=
  match skipSpace cs with
  | ⟨[], _⟩ => failBefore .endInObject []
  | ⟨c :: rest, h⟩ =>
    if c = '\x7d' then .ok (members, ⟨rest, h⟩)
    else
      match nextMember isFirst c rest with
      | .error fault => .error fault
      | .ok start =>
        match readKey start.1 with
        | .error fault => .error fault
        | .ok (key, k) =>
          match readValue depth k.1 with
          | .error fault => .error fault
          | .ok (value, r) =>
            match readMembers depth false (OrderedMap.setEntry key value members) r.1 with
            | .error fault => .error fault
            | .ok (members, r') =>
              .ok (members,
                ⟨r'.1, by have := start.2; have := k.2; have := r.2; have := r'.2; omega⟩)
termination_by 2 * cs.length + 1
decreasing_by
  · have := start.2; have := k.2; omega
  · have := start.2; have := k.2; have := r.2; omega

end

/-- Reads a text that holds one value and nothing else. `depth` lists and objects may be open at
once. -/
def readChars (depth : Nat) (cs : List Char) : Except Fault Json :=
  match readValue depth cs with
  | .error fault => .error fault
  | .ok (value, r) =>
    match skipSpace r.1 with
    | ⟨[], _⟩ => .ok value
    | ⟨rest, _⟩ => failAfter .trailingCharacters 1 rest

/-- How many lists and objects may be open at once in a document. -/
def depthLimit : Nat := 127

/-- Reads the text of a document. -/
def read (text : String) : Except SyntaxError Json :=
  let cs := text.toList
  match readChars depthLimit cs with
  | .ok value => .ok value
  | .error fault =>
    let (line, column) := SyntaxError.place cs (byteCount cs - fault.bytesLeft) 1 0
    .error ⟨fault.cause, line, column⟩

end DocumentTypes.Json

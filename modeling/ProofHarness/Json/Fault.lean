import ProofHarness.Text.Numeral

/-!
# Faults of JSON texts

Why a JSON text is refused, and where.  A place is a number of bytes from the beginning; it is
reported as a line, counted from one, and the bytes in front of it on that line.
-/

set_option autoImplicit false

namespace ProofHarness.Json

/-- Why a text is refused. -/
inductive Cause where
  | endInObject
  | endInList
  | endInString
  | endInValue
  | colonExpected
  | listCommaExpected
  | objectCommaExpected
  | identExpected
  | valueExpected
  | keyExpected
  | invalidEscape
  | invalidNumber
  | numberTooLarge
  | loneSurrogate
  | endOfHexEscape
  | controlCharacter
  | trailingComma
  | trailingCharacters
  | wrongType (found expected : String)
  | unknownVariant (name : String)
  | duplicateField (name : String)
  deriving DecidableEq, Repr

/-- The wording of a cause. -/
def Cause.message : Cause → String
  | .endInObject => "EOF while parsing an object"
  | .endInList => "EOF while parsing a list"
  | .endInString => "EOF while parsing a string"
  | .endInValue => "EOF while parsing a value"
  | .colonExpected => "expected `:`"
  | .listCommaExpected => "expected `,` or `]`"
  | .objectCommaExpected => "expected `,` or `\x7d`"
  | .identExpected => "expected ident"
  | .valueExpected => "expected value"
  | .keyExpected => "key must be a string"
  | .invalidEscape => "invalid escape"
  | .invalidNumber => "invalid number"
  | .numberTooLarge => "number out of range"
  | .loneSurrogate => "lone leading surrogate in hex escape"
  | .endOfHexEscape => "unexpected end of hex escape"
  | .controlCharacter =>
    "control character (\\u0000-\\u001F) found while parsing a string"
  | .trailingComma => "trailing comma"
  | .trailingCharacters => "trailing characters"
  | .wrongType found expected => "invalid type: " ++ found ++ ", expected " ++ expected
  | .unknownVariant name =>
    "unknown variant `" ++ name ++ "`, expected `reverse-index` or `ancestor-chain`"
  | .duplicateField name => "duplicate field `" ++ name ++ "`"

/-- A cause and the place where it was met. -/
structure Fault where
  cause : Cause
  /-- The bytes in front of the place. -/
  offset : Nat
  deriving DecidableEq, Repr

/-- The line and column of a place, from the text on, of which `line` and `column` are reached. -/
def placeFrom (line column : Nat) : Nat → List Char → Nat × Nat
  | _, [] => (line, column)
  | offset, c :: cs =>
    if offset < c.utf8Size then (line, column + offset)
    else if c == '\n' then placeFrom (line + 1) 0 (offset - 1) cs
    else placeFrom line (column + c.utf8Size) (offset - c.utf8Size) cs

/-- The wording of a fault of a text. -/
def Fault.message (text : List Char) (f : Fault) : String :=
  let place := placeFrom 1 0 f.offset text
  f.cause.message ++ " at line " ++ Text.numeral place.1 ++ " column " ++ Text.numeral place.2

end ProofHarness.Json

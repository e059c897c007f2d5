import ProofHarness.Text.Numeral
import ProofHarness.Text.Search

/-!
# JSON values

The values that are written as JSON, and their layout: one member a line, two blanks for each level,
and nothing between empty brackets.  The keys of an object are written in the order in which they
are given.
-/

set_option autoImplicit false

namespace ProofHarness.Json

/-- A JSON value without fractions. -/
inductive Value where
  | null
  | bool (b : Bool)
  | number (n : Nat)
  | string (s : String)
  | list (members : List Value)
  | object (members : List (String × Value))

namespace Value

/-- A hexadecimal numeral of four digits. -/
def fourDigits (n : Nat) : List Char :=
  let digits := Nat.toDigits 16 n
  List.replicate (4 - digits.length) '0' ++ digits

/-- A character in a JSON string. -/
def quotedChar (c : Char) : List Char :=
  if c == '\x22' || c == '\x5c' then ['\x5c', c]
  else if c == '\x08' then ['\x5c', 'b']
  else if c == '\x0c' then ['\x5c', 'f']
  else if c == '\n' then ['\x5c', 'n']
  else if c == '\r' then ['\x5c', 'r']
  else if c == '\t' then ['\x5c', 't']
  else if c.toNat < 0x20 then ['\x5c', 'u'] ++ fourDigits c.toNat
  else [c]

/-- A JSON string. -/
def quoted (s : String) : String :=
  String.ofList (['\x22'] ++ s.toList.flatMap quotedChar ++ ['\x22'])

/-- A line break with the blanks of a level. -/
def lineBreak (level : Nat) : String := String.ofList ('\n' :: List.replicate (2 * level) ' ')

mutual

/-- The text of a value that stands on a level. -/
def render (level : Nat) : Value → String
  | .null => "null"
  | .bool b => if b then "true" else "false"
  | .number n => Text.numeral n
  | .string s => quoted s
  | .list [] => "[]"
  | .list (v :: vs) => "[" ++ renderMembers (level + 1) (v :: vs) ++ lineBreak level ++ "]"
  | .object [] => "\x7b\x7d"
  | .object (m :: ms) =>
    "\x7b" ++ renderFields (level + 1) (m :: ms) ++ lineBreak level ++ "\x7d"

/-- The text of the members of a list. -/
def renderMembers (level : Nat) : List Value → String
  | [] => ""
  | [v] => lineBreak level ++ render level v
  | v :: w :: vs => lineBreak level ++ render level v ++ "," ++ renderMembers level (w :: vs)

/-- The text of the members of an object. -/
def renderFields (level : Nat) : List (String × Value) → String
  | [] => ""
  | [(key, v)] => lineBreak level ++ quoted key ++ ": " ++ render level v
  | (key, v) :: w :: ms =>
    lineBreak level ++ quoted key ++ ": " ++ render level v ++ "," ++ renderFields level (w :: ms)

end

/-- The text of a value. -/
def pretty (v : Value) : String := render 0 v

/-- A list of strings. -/
def strings (texts : List String) : Value := .list (texts.map Value.string)

/-- A string, or `null`. -/
def nullable : Option String → Value
  | some s => .string s
  | none => .null

/-- An object without the members that are absent. -/
def ofPresent (members : List (String × Option Value)) : Value :=
  .object (members.filterMap fun m => m.2.map fun v => (m.1, v))

end Value

end ProofHarness.Json

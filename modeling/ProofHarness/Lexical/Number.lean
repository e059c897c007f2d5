import ProofHarness.Text.Identifier
import ProofHarness.Text.Numeral

/-!
# Number literals

The extent of a number: decimal digits with a fraction or an exponent, or an integer in one of
four bases, with underscores between digits and a suffix of letters.
-/

set_option autoImplicit false

namespace ProofHarness.Lexical

open Text

/-- Whether a character may go on with a run of decimal digits. -/
def isDigitOrUnderscore (c : Char) : Bool := c.isDigit || c == '_'

/-- The number of characters of an exponent after its letter; `none` when it has no digit or two
signs. -/
def exponentLength : Bool → Bool → List Char → Option Nat
  | _, valued, [] => if valued then some 0 else none
  | signed, valued, c :: cs =>
    if c == '+' || c == '-' then
      if valued then some 0
      else if signed then none
      else (exponentLength true valued cs).map (· + 1)
    else if c.isDigit then (exponentLength signed true cs).map (· + 1)
    else if c == '_' then (exponentLength signed valued cs).map (· + 1)
    else if valued then some 0 else none

/-- The number of characters of the fraction or exponent that follows `whole` digits; without
either the number is no float. -/
def floatTail (whole : Nat) : List Char → Option Nat
  | '.' :: cs =>
    if cs.head?.any fun c => c == '.' || isIdentStart c then none
    else
      let point := whole + 1 + (cs.takeWhile isDigitOrUnderscore).length
      match cs.dropWhile isDigitOrUnderscore with
      | e :: rest =>
        if e == 'e' || e == 'E' then
          match exponentLength false false rest with
          | some n => some (point + 1 + n)
          | none => some point
        else some point
      | [] => some point
  | c :: cs =>
    if c == 'e' || c == 'E' then (exponentLength false false cs).map (whole + 1 + ·) else none
  | [] => none

/-- The number of characters of a float without its suffix. -/
def floatDigits : List Char → Option Nat
  | [] => none
  | c :: cs =>
    if c.isDigit then
      floatTail ((cs.takeWhile isDigitOrUnderscore).length + 1)
        (cs.dropWhile isDigitOrUnderscore)
    else none

/-- The number of characters of a run of digits in a base.  A decimal digit outside the base is
refused, a letter outside it ends the run. -/
def digitsFrom (base : Nat) : Bool → List Char → Option Nat
  | empty, [] => if empty then none else some 0
  | empty, c :: cs =>
    if c == '_' then
      if empty && base == 10 then none else (digitsFrom base empty cs).map (· + 1)
    else
      match hexDigit? c with
      | some d =>
        if d < base then (digitsFrom base false cs).map (· + 1)
        else if c.isDigit then none
        else if empty then none else some 0
      | none => if empty then none else some 0

/-- The number of characters of an integer without its suffix. -/
def intDigits : List Char → Option Nat
  | '0' :: 'x' :: cs => (digitsFrom 16 true cs).map (· + 2)
  | '0' :: 'o' :: cs => (digitsFrom 8 true cs).map (· + 2)
  | '0' :: 'b' :: cs => (digitsFrom 2 true cs).map (· + 2)
  | cs => digitsFrom 10 true cs

/-- The number of characters with the suffix, if nothing that could go on with a word follows. -/
def withSuffix (digits : List Char → Option Nat) (s : List Char) : Option Nat :=
  (digits s).bind fun n =>
    let total := n + (identLength (s.drop n)).getD 0
    if (s.drop total).head?.any isIdentContinue then none else some total

/-- The number of characters of the number that a text starts with. -/
def numberLength? (s : List Char) : Option Nat :=
  (withSuffix floatDigits s).orElse fun _ => withSuffix intDigits s

example : numberLength? "1.5e3 ".toList = some 5 := by decide
example : numberLength? "1..2".toList = some 1 := by decide
example : numberLength? "0x1f_u8)".toList = some 7 := by decide
example : numberLength? "0b12".toList = none := by decide

end ProofHarness.Lexical

import ProofHarness.Text.Identifier
import ProofHarness.Text.Numeral

/-!
# Quoted literals

Strings in their three flavours (text, bytes, zero-terminated), each written with escapes or raw,
and character literals.  A quoted literal is first delimited, by the quote that closes it, and
then decoded; decoding fails when its content breaks a rule of its flavour.
-/

set_option autoImplicit false

namespace ProofHarness.Lexical

open Text

/-- What a quoted literal holds: text, bytes, or text that a zero byte will terminate. -/
inductive Flavour where
  | text
  | bytes
  | terminated
  deriving DecidableEq, Repr

/-- Whether a character may stand in a literal as itself. -/
def Flavour.allows : Flavour → Char → Bool
  | .text, _ => true
  | .bytes, c => c.toNat < 0x80
  | .terminated, c => c.toNat != 0

/-- The character with a given code point, if it has one. -/
def charOfNat? (n : Nat) : Option Char :=
  if n.isValidChar then some (Char.ofNat n) else none

/-- The end of a Unicode escape, from its `count`-th digit on: one to six hexadecimal digits,
with underscores after the first, and a closing brace.  Gives the character and the number of
characters read. -/
def unicodeDigits : Nat → Nat → List Char → Option (Char × Nat)
  | _, _, [] => none
  | value, count, c :: cs =>
    match hexDigit? c with
    | some d =>
      if count == 6 then none
      else (unicodeDigits (value * 16 + d) (count + 1) cs).map fun r => (r.1, r.2 + 1)
    | none =>
      if count == 0 then none
      else if c == '_' then (unicodeDigits value count cs).map fun r => (r.1, r.2 + 1)
      else if c == '\x7d' then (charOfNat? value).map fun ch => (ch, 1)
      else none

/-- The number of blanks after a line break that a backslash hides; a carriage return counts
only in front of a line feed. -/
def hiddenBlanks : List Char → Option Nat
  | ' ' :: cs => (hiddenBlanks cs).map (· + 1)
  | '\t' :: cs => (hiddenBlanks cs).map (· + 1)
  | '\n' :: cs => (hiddenBlanks cs).map (· + 1)
  | '\r' :: '\n' :: cs => (hiddenBlanks cs).map (· + 2)
  | '\r' :: _ => none
  | _ => some 0

/-- The escapes of one letter. -/
def letterEscape? : Char → Option Char
  | 'n' => some '\n'
  | 'r' => some '\r'
  | 't' => some '\t'
  | '0' => some '\x00'
  | c => if c == '\x5c' || c == '\x27' || c == '\x22' then some c else none

/-- The escape by two hexadecimal digits. -/
def byteEscape? (flavour : Flavour) (a b : Char) : Option Char :=
  match hexDigit? a, hexDigit? b with
  | some x, some y =>
    match flavour with
    | .text => if x < 8 then some (Char.ofNat (x * 16 + y)) else none
    | .bytes => some (Char.ofNat (x * 16 + y))
    | .terminated => if x == 0 && y == 0 then none else some (Char.ofNat (x * 16 + y))
  | _, _ => none

/-- The escape for one character that follows a backslash: the character meant and the number of
characters read. -/
def charEscape? (flavour : Flavour) : List Char → Option (Char × Nat)
  | 'x' :: a :: b :: _ => (byteEscape? flavour a b).map fun c => (c, 3)
  | 'u' :: '\x7b' :: cs =>
    if flavour == .bytes then none
    else (unicodeDigits 0 0 cs).bind fun r =>
      if flavour.allows r.1 then some (r.1, r.2 + 2) else none
  | c :: _ => (letterEscape? c).bind fun ch =>
      if flavour.allows ch then some (ch, 1) else none
  | [] => none

/-- What the text after a backslash stands for in a string, and the number of characters read:
an escaped character, or nothing for a hidden line break. -/
def escape? (flavour : Flavour) : List Char → Option (List Char × Nat)
  | '\n' :: cs => (hiddenBlanks cs).map fun n => ([], n + 1)
  | '\r' :: '\n' :: cs => (hiddenBlanks cs).map fun n => ([], n + 2)
  | cs => (charEscape? flavour cs).map fun r => ([r.1], r.2)

/-- The value of the content of a string with escapes, `skip` characters of it being read
already. -/
def cookedFrom (flavour : Flavour) : Nat → List Char → Option (List Char)
  | _, [] => some []
  | skip + 1, _ :: cs => cookedFrom flavour skip cs
  | 0, c :: cs =>
    if c == '\x5c' then
      (escape? flavour cs).bind fun r => (cookedFrom flavour r.2 cs).map (r.1 ++ ·)
    else if c == '\r' then
      if cs.head? == some '\n' then cookedFrom flavour 0 cs else none
    else if flavour.allows c then (cookedFrom flavour 0 cs).map (c :: ·)
    else none

/-- Whether the content of a raw string obeys the rules of its flavour. -/
def rawSound (flavour : Flavour) : List Char → Bool
  | [] => true
  | c :: cs =>
    flavour.allows c && (c != '\r' || cs.head? == some '\n') && rawSound flavour cs

/-- A delimited string literal, without its suffix. -/
structure Quoted where
  flavour : Flavour
  /-- Whether a backslash in it is an ordinary character. -/
  raw : Bool
  /-- What stands between the quotes. -/
  content : List Char
  /-- The number of characters of the literal. -/
  length : Nat
  deriving DecidableEq, Repr

/-- The text that a string literal means. -/
def Quoted.value? (q : Quoted) : Option (List Char) :=
  if q.raw then if rawSound q.flavour q.content then some q.content else none
  else cookedFrom q.flavour 0 q.content

/-- The number of characters in front of the quote that closes a string with escapes. -/
def closingQuote : List Char → Option Nat
  | [] => none
  | [c] => if c == '\x22' then some 0 else none
  | c :: d :: cs =>
    if c == '\x22' then some 0
    else if c == '\x5c' then (closingQuote cs).map (· + 2)
    else (closingQuote (d :: cs)).map (· + 1)

/-- The number of characters in front of the quote that closes a raw string with `hashes` number
signs. -/
def closingRaw (hashes : Nat) : List Char → Option Nat
  | [] => none
  | c :: cs =>
    if c == '\x22' && (List.replicate hashes '#').isPrefixOf cs then some 0
    else (closingRaw hashes cs).map (· + 1)

/-- A string with escapes whose opening quote ends the `opened` characters read so far. -/
def cooked? (flavour : Flavour) (opened : Nat) (cs : List Char) : Option Quoted :=
  (closingQuote cs).map fun n => ⟨flavour, false, cs.take n, opened + n + 1⟩

/-- A raw string whose letters are the `opened` characters read so far. -/
def raw? (flavour : Flavour) (opened : Nat) (cs : List Char) : Option Quoted :=
  let hashes := (cs.takeWhile (· == '#')).length
  match cs.drop hashes with
  | '\x22' :: inner =>
    if 255 < hashes then none
    else (closingRaw hashes inner).map fun n =>
      ⟨flavour, true, inner.take n, opened + hashes + 1 + n + 1 + hashes⟩
  | _ => none

/-- The string literal that a text starts with. -/
def quoted? : List Char → Option Quoted
  | '\x22' :: cs => cooked? .text 1 cs
  | 'r' :: cs => raw? .text 1 cs
  | 'b' :: '\x22' :: cs => cooked? .bytes 2 cs
  | 'b' :: 'r' :: cs => raw? .bytes 2 cs
  | 'c' :: '\x22' :: cs => cooked? .terminated 2 cs
  | 'c' :: 'r' :: cs => raw? .terminated 2 cs
  | _ => none

/-- The value of a literal that is a text string; its suffix does not count. -/
def stringValue? (literal : List Char) : Option (List Char) :=
  (quoted? literal).bind fun q => if q.flavour == .text then q.value? else none

/-- The number of characters of a character literal after its opening quote. -/
def charBody? (flavour : Flavour) : List Char → Option Nat
  | '\x5c' :: cs => (charEscape? flavour cs).bind fun r =>
      if (cs.drop r.2).head? == some '\x27' then some (r.2 + 2) else none
  | c :: '\x27' :: _ => if flavour.allows c then some 2 else none
  | _ => none

/-- The number of characters of the character or byte literal that a text starts with. -/
def charLength? : List Char → Option Nat
  | '\x27' :: cs => (charBody? .text cs).map (· + 1)
  | 'b' :: '\x27' :: cs => (charBody? .bytes cs).map (· + 2)
  | _ => none

example : stringValue? "\"a\\tb\"".toList = some "a\tb".toList := by decide
example : stringValue? "r#\"a\"b\"#".toList = some "a\"b".toList := by decide
example : stringValue? "\"\\q\"".toList = none := by decide
example : charLength? "'\\n' x".toList = some 4 := by decide

end ProofHarness.Lexical

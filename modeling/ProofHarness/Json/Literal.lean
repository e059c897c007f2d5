import ProofHarness.Decimal.Shortest
import ProofHarness.Json.Fault
import ProofHarness.Text.Escape
import ProofHarness.Text.Position

/-!
# Literals of JSON texts

Strings, numbers and the three words, each in two ways: `passString` and `passNumber` find where a
literal ends, `stringValue` and `numberValue` find out what it means.  What is passed over need not
mean anything: half of a surrogate pair or a huge exponent is no fault until its value is asked
for.
-/

set_option autoImplicit false

namespace ProofHarness.Json

open Text

/-- The number that four hexadecimal digits denote, at the place `offset`. -/
def hexEscape (offset : Nat) (cs : List Char) : Except Fault Nat :=
  if byteCount (cs.take 4) < 4 then .error ⟨.endInString, offset + byteCount cs⟩
  else
    match (cs.take 4).mapM hexDigit? with
    | some digits => .ok (digits.foldl (fun n d => n * 16 + d) 0)
    | none => .error ⟨.invalidEscape, offset + 4⟩

/-- The escapes of one character. -/
def simpleEscape? : Char → Option Char
  | 'b' => some '\x08'
  | 'f' => some '\x0c'
  | 'n' => some '\n'
  | 'r' => some '\r'
  | 't' => some '\t'
  | c => if c == '\x22' || c == '\x5c' || c == '/' then some c else none

/-- Whether a character may not stand in a string. -/
def isControl (c : Char) : Bool := c.toNat < 0x20

/-- The number of characters of an escape after its backslash. -/
def passEscape (offset : Nat) : List Char → Except Fault Nat
  | [] => .error ⟨.endInString, offset⟩
  | c :: cs =>
    if (simpleEscape? c).isSome then .ok 1
    else if c == 'u' then (hexEscape (offset + 1) cs).map fun _ => 5
    else .error ⟨.invalidEscape, offset + 1⟩

/-- The number of characters of a string after its opening quote, `skip` of them read already. -/
def passString : Nat → Nat → List Char → Except Fault Nat
  | _, offset, [] => .error ⟨.endInString, offset⟩
  | skip + 1, offset, c :: cs => (passString skip (offset + c.utf8Size) cs).map (· + 1)
  | 0, offset, c :: cs =>
    if c == '\x22' then .ok 1
    else if c == '\x5c' then
      (passEscape (offset + 1) cs).bind fun n => (passString n (offset + 1) cs).map (· + 1)
    else if isControl c then .error ⟨.controlCharacter, offset⟩
    else (passString 0 (offset + c.utf8Size) cs).map (· + 1)

/-- The second half of a surrogate pair, whose first half `first` is followed by `cs`.  Gives the
character and the number of characters after the first half. -/
def secondHalf (offset first : Nat) : List Char → Except Fault (Char × Nat)
  | [] => .error ⟨.endInString, offset⟩
  | '\x5c' :: [] => .error ⟨.endInString, offset + 1⟩
  | '\x5c' :: 'u' :: cs =>
    (hexEscape (offset + 2) cs).bind fun second =>
      if 0xDC00 ≤ second && second ≤ 0xDFFF then
        .ok (Char.ofNat (0x10000 + (first - 0xD800) * 0x400 + (second - 0xDC00)), 6)
      else .error ⟨.loneSurrogate, offset + 6⟩
  | '\x5c' :: _ :: _ => .error ⟨.endOfHexEscape, offset + 2⟩
  | _ :: _ => .error ⟨.endOfHexEscape, offset + 1⟩

/-- The character that an escape means and the number of characters after its backslash. -/
def readEscape (offset : Nat) : List Char → Except Fault (Char × Nat)
  | [] => .error ⟨.endInString, offset⟩
  | c :: cs =>
    match simpleEscape? c with
    | some meant => .ok (meant, 1)
    | none =>
      if c == 'u' then
        (hexEscape (offset + 1) cs).bind fun n =>
          if 0xDC00 ≤ n && n ≤ 0xDFFF then .error ⟨.loneSurrogate, offset + 5⟩
          else if n < 0xD800 || 0xDBFF < n then .ok (Char.ofNat n, 5)
          else (secondHalf (offset + 5) n (cs.drop 4)).map fun r => (r.1, r.2 + 5)
      else .error ⟨.invalidEscape, offset + 1⟩

/-- What a string means after its opening quote, `skip` characters of it read already. -/
def stringValue : Nat → Nat → List Char → Except Fault (List Char)
  | _, offset, [] => .error ⟨.endInString, offset⟩
  | skip + 1, offset, c :: cs => stringValue skip (offset + c.utf8Size) cs
  | 0, offset, c :: cs =>
    if c == '\x22' then .ok []
    else if c == '\x5c' then
      (readEscape (offset + 1) cs).bind fun r =>
        (stringValue r.2 (offset + 1) cs).map (r.1 :: ·)
    else if isControl c then .error ⟨.controlCharacter, offset + 1⟩
    else (stringValue 0 (offset + c.utf8Size) cs).map (c :: ·)

/-- The parts of a number as it is written. -/
structure NumberText where
  negative : Bool
  whole : List Char
  /-- The digits after the point, if there is one. -/
  fraction : Option (List Char)
  /-- The sign and the digits of the exponent, if there is one. -/
  exponent : Option (Bool × List Char)
  /-- The number of characters. -/
  length : Nat
  deriving DecidableEq, Repr

/-- The fault of what follows a place where a digit is needed, or of the end of the text there. -/
def digitFault (atEnd : Cause) (offset : Nat) (rest : List Char) : Fault :=
  if rest.isEmpty then ⟨atEnd, offset⟩ else ⟨.invalidNumber, offset + 1⟩

/-- The exponent of a number after its letter, with the number of characters read. -/
def exponentText (atEnd : Cause) (offset : Nat) (cs : List Char) :
    Except Fault (Bool × List Char × Nat) :=
  let signed := cs.head? == some '+' || cs.head? == some '-'
  let rest := if signed then cs.drop 1 else cs
  let digits := rest.takeWhile Char.isDigit
  let sign := if signed then 1 else 0
  if digits.isEmpty then .error (digitFault atEnd (offset + sign) rest)
  else .ok (cs.head? == some '-', digits, sign + digits.length)

/-- The number with a given beginning, from where an exponent may follow. -/
def withExponent (atEnd : Cause) (offset : Nat) (n : NumberText) (cs : List Char) :
    Except Fault NumberText :=
  match cs with
  | c :: rest =>
    if c == 'e' || c == 'E' then
      (exponentText atEnd (offset + n.length + 1) rest).map fun (negative, digits, length) =>
        { n with exponent := some (negative, digits), length := n.length + 1 + length }
    else .ok n
  | [] => .ok n

/-- The number with given whole digits, from where a fraction may follow. -/
def withFraction (atEnd : Cause) (offset : Nat) (n : NumberText) (cs : List Char) :
    Except Fault NumberText :=
  match cs with
  | '.' :: rest =>
    let digits := rest.takeWhile Char.isDigit
    if digits.isEmpty then .error (digitFault atEnd (offset + n.length + 1) rest)
    else
      withExponent atEnd offset
        { n with fraction := some digits, length := n.length + 1 + digits.length }
        (rest.dropWhile Char.isDigit)
  | _ => withExponent atEnd offset n cs

/-- The number that starts at the place `offset`; `atEnd` is the fault if the text ends where a
digit is needed. -/
def numberText (atEnd : Cause) (offset : Nat) (s : List Char) : Except Fault NumberText :=
  let negative := s.head? == some '-'
  let cs := if negative then s.drop 1 else s
  let sign := if negative then 1 else 0
  match cs with
  | '0' :: rest =>
    if rest.head?.any Char.isDigit then .error ⟨.invalidNumber, offset + sign + 2⟩
    else withFraction atEnd offset ⟨negative, ['0'], none, none, sign + 1⟩ rest
  | _ =>
    let digits := cs.takeWhile Char.isDigit
    if digits.isEmpty then .error (digitFault atEnd (offset + sign) cs)
    else
      withFraction atEnd offset ⟨negative, digits, none, none, sign + digits.length⟩
        (cs.dropWhile Char.isDigit)

/-- The number of characters of a number. -/
def passNumber (offset : Nat) (s : List Char) : Except Fault Nat :=
  (numberText .invalidNumber offset s).map NumberText.length

/-- Reads digits onto a number as long as it stays below `limit`, and gives the digits left over. -/
def takeDigits (limit : Nat) : Nat → List Char → Nat × List Char
  | n, [] => (n, [])
  | n, c :: cs =>
    let m := n * 10 + (c.toNat - 48)
    if m < limit then takeDigits limit m cs else (n, c :: cs)

/-- Multiplies a double by a power of ten, dividing by powers of at most 308 at a time; `none` when
the result is infinite. -/
def scaleByTen : Nat → Float → Int → Option Float
  | 0, _, _ => none
  | steps + 1, f, e =>
    if e.natAbs ≤ 308 then
      let power := Float.ofScientific 1 false e.natAbs
      if e < 0 then some (f / power)
      else if (f * power).isInf then none else some (f * power)
    else if f == 0 then some f
    else if 0 ≤ e then none
    else scaleByTen steps (f / Float.ofScientific 1 false 308) (e + 308)

/-- What a number means, as it is named in messages. -/
inductive Number where
  | integer (n : Int)
  | float (f : Float)

/-- The name of a number in messages. -/
def Number.described : Number → String
  | .integer n => "integer `" ++ toString n ++ "`"
  | .float f => "floating point `" ++ String.ofList (Decimal.writtenBits f.toBits.toNat) ++ "`"

/-- The double with a sign. -/
def signed (negative : Bool) (f : Float) : Float := if negative then -f else f

/-- The double made of the digits read and a power of ten. -/
def floatValue (offset : Nat) (n : NumberText) (digits : Nat) (e : Int) : Except Fault Number :=
  match scaleByTen (e.natAbs + 1) (Float.ofScientific digits false 0) e with
  | some f => .ok (.float (signed n.negative f))
  | none => .error ⟨.numberTooLarge, offset + n.length⟩

/-- What a number means that was found at the place `offset`.  Digits that do not fit into 64 bits
are dropped, and an exponent beyond 32 bits decides by itself. -/
def numberValue (offset : Nat) (n : NumberText) : Except Fault Number :=
  let (whole, dropped) := takeDigits UInt64.size 0 n.whole
  let (digits, left) := takeDigits UInt64.size whole (n.fraction.getD [])
  let e : Int := dropped.length - ((n.fraction.getD []).length - left.length : Nat)
  match n.exponent with
  | some (negative, exponent) =>
    let (k, rest) := takeDigits (UInt32.size / 2) 0 exponent
    if rest.isEmpty then floatValue offset n digits (if negative then e - k else e + k)
    else if digits != 0 && !negative then
      .error ⟨.numberTooLarge, offset + n.length - (rest.length - 1)⟩
    else .ok (.float (signed n.negative 0))
  | none =>
    if n.fraction.isSome || !dropped.isEmpty then floatValue offset n digits e
    else if !n.negative then .ok (.integer digits)
    else if digits == 0 || UInt64.size / 2 < digits then
      .ok (.float (signed true (Float.ofScientific digits false 0)))
    else .ok (.integer (-digits))

end ProofHarness.Json

import ProofHarness.Json.Literal

/-!
# Tokens of JSON texts

A JSON text as a list of tokens with an end token behind them.  A token that cannot even be passed
over is the last one in front of the end; its fault shows only when the token is reached, so that
an earlier fault of the grammar comes first.
-/

set_option autoImplicit false

namespace ProofHarness.Json

open Text

/-- A literal in a JSON text. -/
inductive Literal where
  | null
  | bool (b : Bool)
  | number (n : Number)
  | string (s : String)

/-- The name of a literal in messages. -/
def Literal.described : Literal → String
  | .null => "null"
  | .bool b => if b then "boolean `true`" else "boolean `false`"
  | .number n => n.described
  | .string s => "string " ++ String.ofList (escaped s.toList)

/-- A token of a JSON text. -/
structure Token where
  /-- Its first character; `none` for the end of the text. -/
  symbol : Option Char
  /-- The bytes in front of it. -/
  start : Nat
  /-- The bytes up to its end. -/
  stop : Nat
  /-- The fault met in passing it over. -/
  passing : Option Fault
  /-- What it means, or the fault met in finding that out. -/
  meaning : Except Fault Literal

namespace Token

/-- The place that is reported when the token is not what is expected. -/
def peek (t : Token) : Nat := if t.symbol.isNone then t.start else t.start + 1

/-- The fault of a token that is not what is expected; another cause counts if it is the end. -/
def refused (t : Token) (atEnd cause : Cause) : Fault :=
  ⟨if t.symbol.isNone then atEnd else cause, t.peek⟩

/-- Whether the token starts with a given character. -/
def starts (t : Token) (c : Char) : Bool := t.symbol == some c

/-- Whether the token is the beginning of a number. -/
def isNumber (t : Token) : Bool := t.symbol.any fun c => c == '-' || c.isDigit

/-- Whether the token is a string, a number or one of the three words. -/
def isLiteral (t : Token) : Bool :=
  t.isNumber || t.symbol.any fun c => c == '\x22' || c == 'n' || c == 't' || c == 'f'

/-- The end of a text. -/
def ending (offset : Nat) : Token :=
  ⟨none, offset, offset, some ⟨.endInValue, offset⟩, .error ⟨.endInValue, offset⟩⟩

end Token

/-- Blanks between tokens. -/
def isSpace (c : Char) : Bool := c == ' ' || c == '\n' || c == '\t' || c == '\r'

/-- The number of characters of a word of which `rest` is still to come. -/
def passWord : Nat → List Char → List Char → Except Fault Nat
  | _, [], _ => .ok 0
  | offset, _ :: _, [] => .error ⟨.endInValue, offset⟩
  | offset, w :: ws, c :: cs =>
    if w == c then (passWord (offset + 1) ws cs).map (· + 1)
    else .error ⟨.identExpected, offset + 1⟩

/-- A token that starts with `c`, where passing over the rest gives the number of its further
characters. -/
def tokenOf (offset : Nat) (c : Char) (cs : List Char) (passed : Except Fault Nat)
    (meaning : Except Fault Literal) : Token × Nat :=
  match passed with
  | .ok n => (⟨some c, offset, offset + byteCount (c :: cs.take n), none, meaning⟩, n)
  | .error f => (⟨some c, offset, offset, some f, meaning⟩, 0)

/-- The token of one of the three words. -/
def wordToken (offset : Nat) (c : Char) (rest : String) (cs : List Char) (meant : Literal) :
    Token × Nat :=
  let passed := passWord (offset + 1) rest.toList cs
  tokenOf offset c cs passed (passed.map fun _ => meant)

/-- The token that starts with the character `c`, and the number of its further characters. -/
def firstToken (offset : Nat) (c : Char) (cs : List Char) : Token × Nat :=
  if c == '\x22' then
    tokenOf offset c cs (passString 0 (offset + 1) cs)
      ((stringValue 0 (offset + 1) cs).map fun s => .string (String.ofList s))
  else if c == '-' || c.isDigit then
    tokenOf offset c cs ((passNumber offset (c :: cs)).map (· - 1))
      ((numberText .endInValue offset (c :: cs)).bind fun n =>
        (numberValue offset n).map Literal.number)
  else if c == 'n' then wordToken offset c "ull" cs .null
  else if c == 't' then wordToken offset c "rue" cs (.bool true)
  else if c == 'f' then wordToken offset c "alse" cs (.bool false)
  else tokenOf offset c cs (.ok 0) (.error ⟨.valueExpected, offset + 1⟩)

/-- The tokens of a text from the place `offset` on, of which the first `skip` characters belong to
the token before. -/
def tokensFrom : Nat → Nat → List Char → List Token
  | _, offset, [] => [.ending offset]
  | skip + 1, offset, c :: cs => tokensFrom skip (offset + c.utf8Size) cs
  | 0, offset, c :: cs =>
    if isSpace c then tokensFrom 0 (offset + 1) cs
    else
      let t := firstToken offset c cs
      if t.1.passing.isSome then [t.1, .ending (offset + byteCount (c :: cs))]
      else t.1 :: tokensFrom t.2 (offset + c.utf8Size) cs

/-- The tokens of a text. -/
def tokens (text : String) : List Token := tokensFrom 0 0 text.toList

end ProofHarness.Json

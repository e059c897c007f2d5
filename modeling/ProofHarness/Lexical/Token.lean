import ProofHarness.Lexical.Number
import ProofHarness.Lexical.Quoted
import ProofHarness.Text.Blank
import ProofHarness.Text.Position

/-!
# Tokens

Cutting source text into tokens.  Every character of the text belongs to exactly one token, blanks
and comments included, so the tokens of a text, one after the other, are the text; each token
keeps what stands before and after it.
-/

set_option autoImplicit false

namespace ProofHarness.Lexical

open Text

/-- The three pairs of brackets. -/
inductive Delimiter where
  | paren
  | bracket
  | brace
  deriving DecidableEq, Repr

/-- The opening bracket of a pair. -/
def Delimiter.opening : Delimiter → Char
  | .paren => '('
  | .bracket => '['
  | .brace => '\x7b'

/-- The closing bracket of a pair. -/
def Delimiter.closing : Delimiter → Char
  | .paren => ')'
  | .bracket => ']'
  | .brace => '\x7d'

/-- The pair that a character opens. -/
def Delimiter.opened? (c : Char) : Option Delimiter :=
  [Delimiter.paren, .bracket, .brace].find? (·.opening == c)

/-- The pair that a character closes. -/
def Delimiter.closed? (c : Char) : Option Delimiter :=
  [Delimiter.paren, .bracket, .brace].find? (·.closing == c)

/-- The sorts of tokens. -/
inductive TokenKind where
  /-- One character of white space. -/
  | blank
  | lineComment
  | blockComment
  | opening (d : Delimiter)
  | closing (d : Delimiter)
  /-- A string, character or number. -/
  | literal
  /-- One character of punctuation. -/
  | mark
  /-- A quote and a word. -/
  | lifetime
  /-- An identifier or keyword. -/
  | word
  deriving DecidableEq, Repr

/-- The sort of the token that a text starts with, and its extent. -/
structure Shape where
  kind : TokenKind
  /-- The number of characters after the first. -/
  more : Nat
  /-- Whether its content obeys the rules for its sort. -/
  sound : Bool
  deriving DecidableEq, Repr

/-- The characters of which each is a punctuation token. -/
def marks : List Char :=
  ['~', '!', '@', '#', '$', '%', '^', '&', '*', '-', '=', '+', '|', ';', ':', ',', '<', '.', '>',
    '/', '?']

/-- Blanks between tokens: white space, and the two marks that set the writing direction. -/
def isSpacing (c : Char) : Bool := isBlank c || c.toNat == 0x200E || c.toNat == 0x200F

/-- The number of characters up to the end of the line. -/
def untilLineEnd : List Char → Nat
  | [] => 0
  | c :: cs =>
    if c == '\n' || (c == '\r' && cs.head? == some '\n') then 0 else untilLineEnd cs + 1

/-- The number of characters up to the end of a block comment, inside `depth` open ones. -/
def untilCommentEnd : Nat → List Char → Option Nat
  | depth, '/' :: '*' :: cs => (untilCommentEnd (depth + 1) cs).map (· + 2)
  | depth, '*' :: '/' :: cs =>
    if depth ≤ 1 then some 2 else (untilCommentEnd (depth - 1) cs).map (· + 2)
  | depth, _ :: cs => (untilCommentEnd depth cs).map (· + 1)
  | _, [] => none

/-- The words that have no raw form. -/
def neverRaw : List (List Char) :=
  [['_'], "super".toList, "self".toList, "Self".toList, "crate".toList]

/-- The number of characters of a word, which may be raw. -/
def wordLength? : List Char → Option Nat
  | 'r' :: '#' :: cs =>
    (identLength cs).bind fun n => if neverRaw.contains (cs.take n) then none else some (n + 2)
  | cs => identLength cs

/-- Beginnings of literals, with which no word can begin. -/
def literalStarts : List (List Char) :=
  ["r\"", "r#\"", "r##", "b\"", "b'", "br\"", "br#", "c\"", "cr\"", "cr#"].map String.toList

/-- The number of characters of the word that follows the quote of a lifetime. -/
def lifetimeLength? (cs : List Char) : Option Nat :=
  (wordLength? cs).bind fun n =>
    match (cs.drop n).head? with
    | some '\x27' => none
    | some '#' => if "r#".toList.isPrefixOf cs then some n else none
    | _ => some n

/-- The literal that a text starts with. -/
def literalShape? (s : List Char) : Option Shape :=
  match quoted? s with
  | some q =>
    let length := q.length + (identLength (s.drop q.length)).getD 0
    some ⟨.literal, length - 1, q.value?.isSome⟩
  | none =>
    match charLength? s with
    | some n => some ⟨.literal, n + (identLength (s.drop n)).getD 0 - 1, true⟩
    | none => (numberLength? s).map fun n => ⟨.literal, n - 1, true⟩

/-- The token that the text `c :: cs` starts with. -/
def shape? (c : Char) (cs : List Char) : Option Shape :=
  if isSpacing c then some ⟨.blank, 0, true⟩
  else if c == '/' && cs.head? == some '/' then some ⟨.lineComment, untilLineEnd cs, true⟩
  else if c == '/' && cs.head? == some '*' then
    (untilCommentEnd 1 (cs.drop 1)).map fun n => ⟨.blockComment, n + 1, true⟩
  else match Delimiter.opened? c with
  | some d => some ⟨.opening d, 0, true⟩
  | none =>
    match Delimiter.closed? c with
    | some d => some ⟨.closing d, 0, true⟩
    | none =>
      match literalShape? (c :: cs) with
      | some shape => some shape
      | none =>
        if marks.contains c then some ⟨.mark, 0, true⟩
        else if c == '\x27' then (lifetimeLength? cs).map fun n => ⟨.lifetime, n, true⟩
        else if literalStarts.any (·.isPrefixOf (c :: cs)) then none
        else (wordLength? (c :: cs)).map fun n => ⟨.word, n - 1, true⟩

/-- A token in its text. -/
structure Token where
  kind : TokenKind
  /-- Whether its content obeys the rules for its sort. -/
  sound : Bool
  /-- The place at which it starts. -/
  start : Position
  /-- The number of characters before it. -/
  index : Nat
  /-- What stands before it, backwards. -/
  before : List Char
  text : List Char
  /-- What stands after it. -/
  after : List Char
  deriving DecidableEq, Repr

/-- How far a text has been read. -/
structure Reached where
  /-- The place that is reached. -/
  place : Position
  /-- The number of characters read. -/
  index : Nat
  /-- What was read, backwards. -/
  before : List Char

namespace Reached

/-- Nothing is read. -/
def zero : Reached := ⟨.zero, 0, []⟩

/-- One more character is read. -/
def next (r : Reached) (c : Char) : Reached := ⟨r.place.next c, r.index + 1, c :: r.before⟩

/-- Place and number belong to what was read. -/
def Sound (r : Reached) : Prop := r.place = .after r.before ∧ r.index = r.before.length

/-- Nothing has been read at the start. -/
theorem sound_zero : zero.Sound := ⟨rfl, rfl⟩

/-- Reading goes on character by character. -/
theorem Sound.next {r : Reached} (h : r.Sound) (c : Char) : (r.next c).Sound := by
  obtain ⟨hp, hi⟩ := h
  constructor
  · rw [Reached.next, hp, Position.next_after]
  · simp [Reached.next, hi]

end Reached

/-- The tokens of a text that was read up to some place; the next `skip` characters belong to the
token that was met last. -/
def tokensFrom : Nat → Reached → List Char → Option (List Token)
  | _, _, [] => some []
  | skip + 1, r, c :: cs => tokensFrom skip (r.next c) cs
  | 0, r, c :: cs =>
    (shape? c cs).bind fun shape =>
      (tokensFrom shape.more (r.next c) cs).map fun rest =>
        { kind := shape.kind
          sound := shape.sound
          start := r.place
          index := r.index
          before := r.before
          text := c :: cs.take shape.more
          after := cs.drop shape.more } :: rest

/-- The mark that some texts begin with and that belongs to no token. -/
def byteOrderMark : Char := '\ufeff'

/-- The tokens of a text, if it can be cut into tokens; a byte order mark in front is passed
over. -/
def tokens? : List Char → Option (List Token)
  | [] => some []
  | c :: cs => tokensFrom (if c == byteOrderMark then 1 else 0) .zero (c :: cs)

/-- Whether the token is a comment. -/
def Token.isComment (t : Token) : Bool := t.kind == .lineComment || t.kind == .blockComment

/-- The tokens of a text are, one after the other, the text that remains to be read. -/
theorem flatMap_text_tokensFrom {skip : Nat} {r : Reached} {s : List Char} {ts : List Token}
    (h : tokensFrom skip r s = some ts) : ts.flatMap Token.text = s.drop skip := by
  induction s generalizing skip r ts with
  | nil =>
    simp only [tokensFrom, Option.some.injEq] at h
    simp [← h]
  | cons c cs ih =>
    cases skip with
    | succ skip => simpa using ih (by simpa [tokensFrom] using h)
    | zero =>
      rw [tokensFrom] at h
      obtain ⟨shape, _, h⟩ := Option.bind_eq_some_iff.1 h
      obtain ⟨rest, hrest, rfl⟩ := Option.map_eq_some_iff.1 h
      simp [ih hrest]

end ProofHarness.Lexical
